import LineShell.Text.Utf8

/-!
# Command lines

A **line** is what one command is: the bytes that were typed, without their terminator.

* `Line.terminator`: the byte that ends a line.
* `Line`: bytes free of terminators, and whether the line was cut short.
* `Line.ofBytes?`, `Line.ofRaw`: the line of all the bytes, and of those before a terminator.
* `Line.text`: the line as text, with escapes for the bytes that are no UTF-8.
-/

namespace LineShell

def Line.terminator : UInt8 := 0x0A

/-- One command as it was typed.  It is **truncated** if the reader stopped at its limit, so that
what follows may belong to the same physical line. -/
structure Line where
  bytes : Bytes
  truncated : Bool := false
  terminator_not_mem : Line.terminator ∉ bytes

namespace Line

/-- The line of some bytes, if none of them is a terminator. -/
def ofBytes? (bytes : Bytes) (truncated : Bool) : Option Line :=
  if h : terminator ∈ bytes then none else some ⟨bytes, truncated, h⟩

def ofRaw (raw : Bytes) (truncated : Bool) : Line where
  bytes := raw.takeWhile (· != terminator)
  truncated := truncated
  terminator_not_mem h := absurd (List.all_eq_true.1 List.all_takeWhile _ h) (by simp)

def text (line : Line) : Text := .ofBytes line.bytes

def length (line : Line) : Nat := line.bytes.length

end Line

end LineShell
