import LineShell.Text.Printable

/-!
# Quoted text

A text is shown between two marks, on one line and in printable code points only.  The mark is the
apostrophe, unless the text holds an apostrophe and no double quote.

* `Text.mark`: the mark of a text.
* `CodePoint.quoteWith`: how one code point is written between two such marks.
* `Text.quoted`: the whole.
-/

namespace LineShell

def Text.mark (t : Text) : CodePoint :=
  if t.contains .apostrophe && !t.contains .quote then .quote else .apostrophe

/-- One code point between marks: the mark and the backslash take a backslash, three controls have
letters, and what cannot be printed is written in hexadecimal of two, four or eight digits. -/
def CodePoint.quoteWith (mark c : CodePoint) : Text :=
  let escaped (letter : String) (digits : Text) : Text :=
    .backslash :: Text.ofString letter ++ digits
  if c = mark || c = .backslash then [.backslash, c]
  else if c = .tab then escaped "t" []
  else if c = .lineFeed then escaped "n" []
  else if c = .carriageReturn then escaped "r" []
  else if c.isPrintable then [c]
  else if c ≤ 0xFF then escaped "x" (Text.hex 2 c.val)
  else if c ≤ 0xFFFF then escaped "u" (Text.hex 4 c.val)
  else escaped "U" (Text.hex 8 c.val)

def Text.quoted (t : Text) : Text :=
  [t.mark] ++ t.flatMap (CodePoint.quoteWith t.mark) ++ [t.mark]

end LineShell
