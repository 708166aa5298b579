import LineShell.Options.Flag
import LineShell.Text.DecimalDigit

/-!
# Words of the command line

What part each argument plays is settled before any of them acts.

* `Word`: a flag, perhaps with a value attached; the separator; something that looks like a flag; or
  plain text, which can be the value of the flag before it.
* `Word.ofText`: the part that one argument plays, unless it is ambiguous.
* `Word.ofArguments`: the parts of all.  After the separator all is plain.
-/

namespace LineShell

/-- The part that an argument plays.  A `short` flag is spelled with a single hyphen. -/
inductive Word
  | plain
  | separator
  | flag (flag : Flag) (short : Bool) (attached : Option Text)
  | unknown
deriving DecidableEq, Repr

structure Ambiguity where
  argument : Text
  spellings : List Text
deriving DecidableEq, Repr

namespace Word

def isShort : Text → Bool
  | _ :: c :: _ => c ≠ .hyphen
  | _ => true

def isDigits (t : Text) : Bool := !t.isEmpty && t.all (·.decimal?.isSome)

/-- Whether a text is a negative number: a hyphen and digits, perhaps with a point before the last
of them.  A line feed at the end does not count. -/
def isNegativeNumber (t : Text) : Bool :=
  let t := if t.getLast? = some .lineFeed then t.dropLast else t
  match t with
  | c :: size =>
    c = .hyphen && (isDigits size || match Text.cut? .dot size with
      | some (whole, part) => (whole.isEmpty || isDigits whole) && isDigits part
      | none => false)
  | [] => false

/-- The flags that a text may stand for, with their spellings and what is attached to them.  A text
with two hyphens may leave off the end of a spelling, and a value may follow an equals sign.  A text
with one hyphen may go on after a spelling of one letter. -/
def candidates (t : Text) : List (Text × Flag × Option Text) :=
  if isShort t then
    Flag.table.filterMap fun (spelling, f) =>
      if spelling = t.take 2 then some (spelling, f, some (t.drop 2))
      else if t.isPrefixOf spelling then some (spelling, f, none)
      else none
  else
    let (start, attached) := match t.cut? .equals with
      | some (start, value) => (start, some value)
      | none => (t, none)
    Flag.table.filterMap fun (spelling, f) =>
      if start.isPrefixOf spelling then some (spelling, f, attached) else none

/-- The flag that a text spells out, perhaps with a value after an equals sign. -/
def spelled? (t : Text) : Option (Text × Flag × Option Text) :=
  match Flag.ofSpelling? t with
  | some f => some (t, f, none)
  | none =>
    match t.cut? .equals with
    | some (spelling, value) => (Flag.ofSpelling? spelling).map fun f => (spelling, f, some value)
    | none => none

/-- The part that an argument plays.  What starts with a hyphen is a flag or looks like one, save
for a hyphen alone, a negative number, and text with a space in it. -/
def ofText (t : Text) : Except Ambiguity Word :=
  if t.head? ≠ some .hyphen then .ok .plain
  else
    let flagged : Text × Flag × Option Text → Word := fun (spelling, f, attached) =>
      .flag f (isShort spelling) attached
    match spelled? t with
    | some found => .ok (flagged found)
    | none =>
      if t.length = 1 then .ok .plain
      else match candidates t with
        | [found] => .ok (flagged found)
        | [] =>
          if isNegativeNumber t || t.contains .space then .ok .plain else .ok .unknown
        | several => .error ⟨t, several.map (·.1)⟩

/-- The separator: after it there are no flags. -/
def separatorText : Text := [.hyphen, .hyphen]

def ofArguments : List Text → Except Ambiguity (List (Text × Word))
  | [] => .ok []
  | t :: ts =>
    if t = separatorText then .ok ((t, .separator) :: ts.map fun t => (t, .plain))
    else do
      let word ← ofText t
      return (t, word) :: (← ofArguments ts)

end Word

end LineShell
