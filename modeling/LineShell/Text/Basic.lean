/-!
# Code points, text and bytes

The shell moves between two kinds of sequence: **bytes**, which the system takes and gives, and
**text**, which people read.

* `CodePoint`: a Unicode code point, surrogates included; `CodePoint.isSurrogate`.
* `Text`, `Bytes`: the two kinds of sequence.
* `Text.ofString`: the text that a literal stands for.
* `Text.decimal`, `Text.ofInt`, `Text.hex`: numbers written out.
* `Text.unsign`, `Text.digitsValue`, `Text.signed`: numbers read; `Text.digitLimit` is how long they
  may be.
-/

namespace LineShell

/-- A Unicode code point. Surrogates count: text made from arbitrary bytes holds them. -/
abbrev CodePoint := Fin 0x110000

/-- There are code points, so that numerals name some. -/
instance CodePoint.count_neZero : @NeZero Nat Zero.ofOfNat0 0x110000 := ⟨Nat.succ_ne_zero _⟩

abbrev Text := List CodePoint

abbrev Bytes := List UInt8

/-! ## Code points -/

namespace CodePoint

theorem toNat_lt (c : Char) : c.toNat < 0x110000 := by
  have h := c.valid
  change c.val.toNat < 0x110000
  rcases h with h | ⟨_, h⟩ <;> omega

def ofChar (c : Char) : CodePoint := ⟨c.toNat, toNat_lt c⟩

/-- Surrogates are the code points U+D800 to U+DFFF; they stand for no character. -/
def isSurrogate (c : CodePoint) : Bool := 0xD800 ≤ c && c ≤ 0xDFFF

def toChar? (c : CodePoint) : Option Char :=
  if h : c.val.isValidChar then some (Char.ofNatAux c.val h) else none

def isDigit (c : CodePoint) : Bool := 0x30 ≤ c && c ≤ 0x39

def digitValue (c : CodePoint) : Nat := c.val - 0x30

/-- ASCII capitals become small letters, all else stays. -/
def lowered (c : CodePoint) : CodePoint :=
  if 0x41 ≤ c && c ≤ 0x5A then c + 0x20 else c

/-- Membership in a table of ranges, each given by its first and last code point. -/
def inRanges (table : List (Nat × Nat)) (c : CodePoint) : Bool :=
  table.any fun r => r.1 ≤ c.val && c.val ≤ r.2

/-! ### Code points with a part to play -/

def tab : CodePoint := 0x09
def lineFeed : CodePoint := 0x0A
def carriageReturn : CodePoint := 0x0D
def space : CodePoint := 0x20
def quote : CodePoint := 0x22
def apostrophe : CodePoint := 0x27
def plus : CodePoint := 0x2B
def comma : CodePoint := 0x2C
def hyphen : CodePoint := 0x2D
def dot : CodePoint := 0x2E
def slash : CodePoint := 0x2F
def zero : CodePoint := 0x30
def colon : CodePoint := 0x3A
def equals : CodePoint := 0x3D
def bracket : CodePoint := 0x5B
def backslash : CodePoint := 0x5C
def bracketEnd : CodePoint := 0x5D
def underscore : CodePoint := 0x5F
def brace : CodePoint := 0x7B
def braceEnd : CodePoint := 0x7D
def tilde : CodePoint := 0x7E

end CodePoint

/-! ## Text -/

namespace Text

def ofString (s : String) : Text := s.toList.map CodePoint.ofChar

def decimal (n : Nat) : Text := (Nat.toDigits 10 n).map CodePoint.ofChar

/-- An integer in decimal digits, a hyphen before a negative one. -/
def ofInt (n : Int) : Text :=
  if n < 0 then CodePoint.hyphen :: decimal n.natAbs else decimal n.natAbs

/-- A natural number in small hexadecimal digits, at least `width` of them. -/
def hex (width n : Nat) : Text :=
  ((Nat.toDigits 16 n).map CodePoint.ofChar).leftpad width .zero

/-- A sign taken off a text: whether it is a hyphen, and the rest. -/
def unsign (t : Text) : Bool × Text :=
  match t with
  | c :: rest =>
    if c = CodePoint.hyphen then (true, rest)
    else if c = CodePoint.plus then (false, rest)
    else (false, t)
  | [] => (false, t)

theorem length_unsign (t : Text) : (unsign t).2.length ≤ t.length := by
  unfold unsign
  split
  · split
    · exact Nat.le_succ _
    · split
      · exact Nat.le_succ _
      · exact Nat.le_refl _
  · exact Nat.le_refl _

def signed (negative : Bool) (size : Nat) : Int := if negative then -(size : Int) else size

/-- The most digits that are read as one integer. -/
def digitLimit : Nat := 4300

def digitsValue (t : Text) : Nat := t.foldl (fun n c => 10 * n + c.digitValue) 0

def join (between : Text) (ts : List Text) : Text := (ts.intersperse between).flatten

/-- The text before the first `c` and the text after it, if there is a `c`. -/
def cut? (c : CodePoint) (t : Text) : Option (Text × Text) :=
  if t.contains c then
    some (t.takeWhile (· ≠ c), (t.dropWhile (· ≠ c)).drop 1)
  else none

/-- The pieces of a text between the occurrences of `c`: one more than there are. -/
def pieces (c : CodePoint) (t : Text) : List Text := t.splitOn c

end Text

end LineShell
