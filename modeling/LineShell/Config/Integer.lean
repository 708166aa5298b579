import LineShell.Text.Blank

/-!
# Integers in text

A setting may be given as text.  Such an integer may have white space around it, a sign, zeros in
front, zeros after a decimal point, and single underscores between its digits.

* `Integer.Refusal`: what is wrong with a text that is no integer.
* `Integer.stripped?`, `Integer.plain?`: a text stripped of all that but a hyphen, and its integer.
* `Integer.ofText`: the integer of a text.
-/

namespace LineShell.Integer

inductive Refusal
  /-- The text holds surrogates. -/
  | surrogate
  /-- The text starts with too many digits. -/
  | tooLong
  | malformed
deriving DecidableEq, Repr

/-- A sign taken off a text: whether it is a hyphen, and the rest.  A plus before a hyphen is no
sign. -/
def sign (t : Text) : Bool × Text :=
  match t with
  | c :: rest =>
    if c = CodePoint.hyphen then (true, rest)
    else if c = CodePoint.plus ∧ rest.head? ≠ some .hyphen then (false, rest)
    else (false, t)
  | [] => (false, t)

/-- Zeros and underscores go from the front of a text that starts with a zero, up to what makes the
number: another digit or a hyphen, the last one before a decimal point, or the very last one. -/
def stripZeros (t : Text) : Text :=
  if t.head? = some .zero then
    let isFiller (c : CodePoint) : Bool := c = .zero || c = .underscore
    let filler := t.takeWhile isFiller
    match t.dropWhile isFiller with
    | [] => filler.drop (filler.length - 1)
    | c :: rest =>
      if c = .dot then filler.drop (filler.length - 1) ++ c :: rest else c :: rest
  else t

/-- A decimal point with zeros after it goes, if nothing else follows. -/
def stripFraction (t : Text) : Text :=
  match t.cut? .dot with
  | some (whole, zeros) => if zeros ≠ [] ∧ zeros.all (· = .zero) then whole else t
  | none => t

/-- Underscores go; none may be first or last, nor may two stand together. -/
def stripUnderscores? (t : Text) : Option Text :=
  if (t.pieces .underscore).contains [] ∧ t.contains .underscore then none
  else some (t.filter (· ≠ .underscore))

def unhyphen (t : Text) : Bool × Text :=
  match t with
  | c :: rest => if c = CodePoint.hyphen then (true, rest) else (false, t)
  | [] => (false, [])

/-- How many digits a text starts with, a hyphen before them apart.  A first digit that is zero is
the only one. -/
def leadingDigits (t : Text) : Nat :=
  let size := (unhyphen t).2
  if size.head? = some .zero then 1 else (size.takeWhile CodePoint.isDigit).length

/-- A hyphen or none, and then digits that do not start with an idle zero. -/
def plain? (t : Text) : Option Int :=
  let (negative, size) := unhyphen t
  if size = [] ∨ !size.all CodePoint.isDigit ∨ (size.head? = some .zero ∧ size.length ≠ 1) then none
  else if Text.digitLimit < size.length then none
  else some (Text.signed negative (Text.digitsValue size))

def stripped? (t : Text) : Option Text :=
  let (negative, size) := sign (t.trim CodePoint.isWhiteSpace)
  (stripUnderscores? (stripFraction (stripZeros size))).map fun size =>
    if negative then .hyphen :: size else size

/-- The integer of a text.  That there are too many digits is noticed in the text as it stands only,
where nothing is stripped; afterwards it is as bad as any other fault. -/
def ofText (t : Text) : Except Refusal Int :=
  if t.any CodePoint.isSurrogate then .error .surrogate
  else if Text.digitLimit < leadingDigits t then .error .tooLong
  else match (stripped? t).bind plain? with
    | some n => .ok n
    | none => .error .malformed

end LineShell.Integer
