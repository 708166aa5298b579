import LineShell.Text.Basic

/-!
# White space

Two sets are in use: the **white space** of Unicode, and the wider set of **blanks**, to which the
four information separators U+001C to U+001F belong too.

* `CodePoint.isWhiteSpace`, `CodePoint.isBlank`.
* `Text.trim`: a text without the code points of a set at its two ends.
-/

namespace LineShell

namespace CodePoint

def whiteSpaceRanges : List (Nat × Nat) := [
  (0x9, 0xD), (0x20, 0x20), (0x85, 0x85), (0xA0, 0xA0), (0x1680, 0x1680), (0x2000, 0x200A),
  (0x2028, 0x2029), (0x202F, 0x202F), (0x205F, 0x205F), (0x3000, 0x3000)]

def isWhiteSpace (c : CodePoint) : Bool := inRanges whiteSpaceRanges c

/-- White space and the information separators. -/
def isBlank (c : CodePoint) : Bool := isWhiteSpace c || (0x1C ≤ c && c ≤ 0x1F)

end CodePoint

def Text.trim (p : CodePoint → Bool) (t : Text) : Text :=
  ((t.dropWhile p).reverse.dropWhile p).reverse

end LineShell
