import LineShell.Json.Reader

/-!
# JSON documents

A **document** is a text that holds one value and blanks around it.

* `Json.Place`: a place in a text, by line and column.
* `Json.Error`: why a text is no document, and `Json.Error.message`.
* `Json.Value.ofText`: the value of a document.
-/

namespace LineShell.Json

/-- A place in a text: the number of code points before it, its line and its column, which both
count from one. -/
structure Place where
  position : Nat
  line : Nat
  column : Nat
deriving DecidableEq, Repr

def Place.after (before : Text) : Place where
  position := before.length
  line := before.count .lineFeed + 1
  column := (before.reverse.takeWhile (· ≠ .lineFeed)).length + 1

inductive Error
  | malformed (cause : Cause) (place : Place)
  /-- An integer is too long to be read. -/
  | tooManyDigits (count : Nat)
  | tooDeep
deriving DecidableEq, Repr

def Error.message : Error → Text
  | .malformed cause place =>
    .ofString cause.message ++ .ofString ": line " ++ .decimal place.line ++
      .ofString " column " ++ .decimal place.column ++ .ofString " (char " ++
      .decimal place.position ++ .ofString ")"
  | .tooManyDigits count =>
    .ofString "Exceeds the limit (" ++ .decimal Text.digitLimit ++
      .ofString " digits) for integer string conversion: value has " ++ .decimal count ++
      .ofString " digits; use sys.set_int_max_str_digits() to increase the limit"
  | .tooDeep => []

def Refusal.error (t : Text) : Refusal → Error
  | .malformed cause left => .malformed cause (.after (t.take (t.length - left)))
  | .tooManyDigits count => .tooManyDigits count
  | .tooDeep => .tooDeep

/-- The room that a reader has when little else is running. -/
def usualRoom : Nat := 999

/-- Reads a document, in whose value others may be nested up to `room` deep.  A byte order mark is
no part of it. -/
def document (room : Nat) (t : Text) : Except Refusal Value := do
  if t.head? = some 0xFEFF then
    throw (.malformed .byteOrderMark t.length)
  let ⟨(v, rest), _⟩ ← Json.value (room + 1) (skip t)
  match skip rest with
  | [] => return v
  | extra => throw (.malformed .extraData extra.length)

def Value.ofText (t : Text) (room : Nat := usualRoom) : Except Error Value :=
  (document room t).mapError (Refusal.error t)

end LineShell.Json
