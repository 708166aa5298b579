import LineShell.Text.Basic

/-!
# UTF-8

Bytes become text and text becomes bytes.  Text that people give may come from **any** bytes, so an
undecodable byte `b` is carried through text as the surrogate U+DC00 + `b`, its **escape**.

* `Utf8.scan`: the code point at the front of some bytes, or what is wrong there.
* `Text.ofBytes`: decoding with escapes; it never fails.
* `Text.ofUtf8`: strict decoding, with the first `Utf8.Defect` as its error.
* `Text.encode`: encoding with escapes; it fails at a surrogate that is no escape.
* `Text.spell`: encoding for reports, where a surrogate is spelled out.

A sequence is well formed iff it is the shortest one for its code point and the code point is no
surrogate.  All of this is decided by the first byte and the range that it leaves to the second
(`Utf8.lead?`).
-/

namespace LineShell

namespace Utf8

/-! ## One sequence -/

/-- What the first byte of a sequence announces: how many bytes follow, the bits that it carries
itself, and the range in which the second byte lies. -/
structure Lead where
  more : Nat
  bits : Nat
  low : UInt8
  high : UInt8
deriving DecidableEq

/-- The first bytes of sequences of two, three and four bytes. -/
def lead? (b : UInt8) : Option Lead :=
  if 0xC2 ≤ b ∧ b ≤ 0xDF then some ⟨1, b.toNat - 0xC0, 0x80, 0xBF⟩
  else if b = 0xE0 then some ⟨2, 0x0, 0xA0, 0xBF⟩
  else if b = 0xED then some ⟨2, 0xD, 0x80, 0x9F⟩
  else if 0xE1 ≤ b ∧ b ≤ 0xEF then some ⟨2, b.toNat - 0xE0, 0x80, 0xBF⟩
  else if b = 0xF0 then some ⟨3, 0, 0x90, 0xBF⟩
  else if 0xF1 ≤ b ∧ b ≤ 0xF3 then some ⟨3, b.toNat - 0xF0, 0x80, 0xBF⟩
  else if b = 0xF4 then some ⟨3, 4, 0x80, 0x8F⟩
  else none

inductive Reason
  | badStart
  | badContinuation
  | endOfData
deriving DecidableEq, Repr

/-- The front of some bytes: a code point and the bytes after it, or a malformed sequence of some
length. -/
inductive Scan
  | found (c : CodePoint) (rest : Bytes)
  | malformed (length : Nat) (reason : Reason)

/-- Reads `more` further bytes, the next of them between `low` and `high`, onto the bits read so
far.  `taken` bytes of the sequence have been read. -/
def follow : (more : Nat) → (bits : Nat) → (low high : UInt8) → (taken : Nat) → Bytes → Scan
  | 0, bits, _, _, _, rest => .found (Fin.ofNat _ bits) rest
  | _ + 1, _, _, _, taken, [] => .malformed taken .endOfData
  | more + 1, bits, low, high, taken, b :: rest =>
    if low ≤ b ∧ b ≤ high then
      follow more (64 * bits + (b.toNat - 0x80)) 0x80 0xBF (taken + 1) rest
    else .malformed taken .badContinuation

def scan (b : UInt8) (rest : Bytes) : Scan :=
  if b < 0x80 then .found (Fin.ofNat _ b.toNat) rest
  else match lead? b with
    | some l => follow l.more l.bits l.low l.high 1 rest
    | none => .malformed 1 .badStart

theorem length_of_follow {more bits : Nat} {low high : UInt8} {taken : Nat} {bs rest : Bytes}
    {c : CodePoint} (h : follow more bits low high taken bs = .found c rest) :
    rest.length ≤ bs.length := by
  induction more generalizing bits low high taken bs with
  | zero => simp only [follow, Scan.found.injEq] at h; simp [h.2]
  | succ more ih =>
    cases bs with
    | nil => simp [follow] at h
    | cons b bs =>
      simp only [follow] at h
      split at h
      · exact Nat.le_succ_of_le (ih h)
      · cases h

/-- A sequence never reaches past the bytes. -/
theorem length_of_scan {b : UInt8} {bs rest : Bytes} {c : CodePoint}
    (h : scan b bs = .found c rest) : rest.length ≤ bs.length := by
  unfold scan at h
  split at h
  · simp only [Scan.found.injEq] at h; simp [h.2]
  · split at h
    · exact length_of_follow h
    · cases h

/-! ## Decoding -/

def escape (b : UInt8) : CodePoint := Fin.ofNat _ (0xDC00 + b.toNat)

/-- Decodes onto `acc`, which is in reverse. -/
def decodeOnto (acc : Text) : Bytes → Text
  | [] => acc.reverse
  | b :: bs =>
    match _h : scan b bs with
    | .found c rest => decodeOnto (c :: acc) rest
    | .malformed _ _ => decodeOnto (escape b :: acc) bs
termination_by bs => bs.length
decreasing_by
  · have := length_of_scan _h; simp only [List.length_cons]; omega
  · simp

/-- The first malformed sequence: where it is, its bytes, and what is wrong with it. -/
structure Defect where
  position : Nat
  bytes : Bytes
  reason : Reason
deriving DecidableEq, Repr

/-- The bytes from the first malformed sequence on, with its length and its reason. -/
def malformed? : Bytes → Option (Bytes × Nat × Reason)
  | [] => none
  | b :: bs =>
    match _h : scan b bs with
    | .found _ rest => malformed? rest
    | .malformed n reason => some (b :: bs, n, reason)
termination_by bs => bs.length
decreasing_by
  have := length_of_scan _h; simp only [List.length_cons]; omega

def defect? (bs : Bytes) : Option Defect :=
  (malformed? bs).map fun (left, n, reason) => ⟨bs.length - left.length, left.take n, reason⟩

/-! ## Encoding -/

def byte (n : Nat) : UInt8 := UInt8.ofNat n

def sequence (c : CodePoint) : Bytes :=
  let n := c.val
  if n < 0x80 then [byte n]
  else if n < 0x800 then [byte (0xC0 + n / 0x40), byte (0x80 + n % 0x40)]
  else if n < 0x10000 then
    [byte (0xE0 + n / 0x1000), byte (0x80 + n / 0x40 % 0x40), byte (0x80 + n % 0x40)]
  else
    [byte (0xF0 + n / 0x40000), byte (0x80 + n / 0x1000 % 0x40), byte (0x80 + n / 0x40 % 0x40),
      byte (0x80 + n % 0x40)]

/-- Escapes stand for the bytes from 0x80 on. -/
def isEscape (c : CodePoint) : Bool := 0xDC80 ≤ c && c ≤ 0xDCFF

/-- The bytes that a code point stands for: an escape for its one byte, all else for its
sequence. -/
def codeBytes (c : CodePoint) : Bytes :=
  if isEscape c then [byte (c.val - 0xDC00)] else sequence c

/-- Surrogates that are no escapes have no bytes. -/
def isEncodable (c : CodePoint) : Bool := isEscape c || !c.isSurrogate

/-- The first code point without bytes, its position, and the position of the last surrogate of the
run that it starts. -/
structure Unencodable where
  codePoint : CodePoint
  first : Nat
  last : Nat
deriving DecidableEq, Repr

end Utf8

namespace Text

/-- The text of some bytes; a byte that belongs to no sequence becomes its escape. -/
def ofBytes (bs : Bytes) : Text := Utf8.decodeOnto [] bs

def ofUtf8 (bs : Bytes) : Except Utf8.Defect Text :=
  match Utf8.defect? bs with
  | some d => .error d
  | none => .ok (ofBytes bs)

def unencodable? (t : Text) : Option Utf8.Unencodable :=
  let fine := t.takeWhile Utf8.isEncodable
  match t.dropWhile Utf8.isEncodable with
  | [] => none
  | c :: rest =>
    some ⟨c, fine.length, fine.length + (rest.takeWhile CodePoint.isSurrogate).length⟩

/-- The bytes of a text; each escape becomes its byte. -/
def encode (t : Text) : Except Utf8.Unencodable Bytes :=
  match t.unencodable? with
  | some u => .error u
  | none => .ok (t.flatMap Utf8.codeBytes)

/-- A surrogate spelled in hexadecimal after a backslash, any other code point by itself. -/
def spellCode (c : CodePoint) : Text :=
  if c.isSurrogate then CodePoint.backslash :: ofString "u" ++ hex 4 c.val else [c]

/-- The bytes of a text whose surrogates are spelled out. -/
def spell (t : Text) : Bytes := (t.flatMap spellCode).flatMap Utf8.sequence

def bytes (s : String) : Bytes := (ofString s).flatMap Utf8.sequence

end Text

namespace Utf8

/-! ## Messages -/

def Reason.message : Reason → Text
  | .badStart => .ofString "invalid start byte"
  | .badContinuation => .ofString "invalid continuation byte"
  | .endOfData => .ofString "unexpected end of data"

/-- One byte is named, several are only counted. -/
def Defect.message (d : Defect) : Text :=
  let place := match d.bytes with
    | [b] => .ofString "byte 0x" ++ Text.hex 2 b.toNat ++ .ofString " in position " ++
        Text.decimal d.position
    | bs => .ofString "bytes in position " ++ Text.decimal d.position ++ .ofString "-" ++
        Text.decimal (d.position + bs.length - 1)
  .ofString "'utf-8' codec can't decode " ++ place ++ .ofString ": " ++ d.reason.message

/-- One surrogate is named, several are only counted. -/
def Unencodable.message (u : Unencodable) : Text :=
  let place :=
    if u.first = u.last then
      .ofString "character '\\u" ++ Text.hex 4 u.codePoint.val ++ .ofString "' in position " ++
        Text.decimal u.first
    else
      .ofString "characters in position " ++ Text.decimal u.first ++ .ofString "-" ++
        Text.decimal u.last
  .ofString "'utf-8' codec can't encode " ++ place ++ .ofString ": surrogates not allowed"

end Utf8

end LineShell
