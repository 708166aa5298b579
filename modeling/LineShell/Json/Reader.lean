import LineShell.Json.Value

/-!
# Reading JSON

A reader takes something from the front of a text and leaves the rest, which is shorter; so nothing
but the text bounds the work.  Nesting has a limit of its own, since deep values are refused.

* `Json.Cause`, `Json.Refusal`: what can be wrong with a text, and where.
* `Json.string`, `Json.numeral`, `Json.scalar`, `Json.value`: readers of the parts.

The grammar is the usual one, and a little more: `NaN`, `Infinity` and `-Infinity` are numbers, and
a string may hold surrogates that stand alone.
-/

namespace LineShell.Json

inductive Cause
  | byteOrderMark
  | value
  | propertyName
  | colon
  | comma
  | extraData
  | unterminated
  | control
  | escape
  | unicodeEscape
deriving DecidableEq, Repr

namespace Cause

def message : Cause → String
  | .byteOrderMark => "Unexpected UTF-8 BOM (decode using utf-8-sig)"
  | .value => "Expecting value"
  | .propertyName => "Expecting property name enclosed in double quotes"
  | .colon => "Expecting ':' delimiter"
  | .comma => "Expecting ',' delimiter"
  | .extraData => "Extra data"
  | .unterminated => "Unterminated string starting at"
  | .control => "Invalid control character at"
  | .escape => "Invalid \\escape"
  | .unicodeEscape => "Invalid \\uXXXX escape"

end Cause

/-- Why a text is not read.  A place is given by how much text is `left` there. -/
inductive Refusal
  | malformed (cause : Cause) (left : Nat)
  | tooManyDigits (count : Nat)
  | tooDeep
deriving DecidableEq, Repr

/-- What a reader makes of a text: something, and a shorter rest. -/
abbrev Read (α : Type) (t : Text) := Except Refusal { r : α × Text // r.2.length < t.length }

/-! ## Blanks -/

def isBlank (c : CodePoint) : Bool :=
  c = .space || c = .tab || c = .lineFeed || c = .carriageReturn

def skip (t : Text) : Text := t.dropWhile isBlank

theorem length_skip (t : Text) : (skip t).length ≤ t.length :=
  (List.dropWhile_sublist _).length_le

/-! ## Strings -/

def hexDigit? (c : CodePoint) : Option Nat :=
  if 0x30 ≤ c ∧ c ≤ 0x39 then some (c.val - 0x30)
  else if 0x41 ≤ c ∧ c ≤ 0x46 then some (c.val - 0x37)
  else if 0x61 ≤ c ∧ c ≤ 0x66 then some (c.val - 0x57)
  else none

/-- Four hexadecimal digits at the front of a text, their number and the rest.  Since a string goes
on after an escape, the digits may not be the end of the text. -/
def hexFour? : Text → Option (Nat × Text)
  | a :: b :: c :: d :: next :: rest =>
    match hexDigit? a, hexDigit? b, hexDigit? c, hexDigit? d with
    | some a, some b, some c, some d =>
      some (0x1000 * a + 0x100 * b + 0x10 * c + d, next :: rest)
    | _, _, _, _ => none
  | _ => none

theorem length_hexFour? {t rest : Text} {n : Nat} (h : hexFour? t = some (n, rest)) :
    rest.length < t.length := by
  unfold hexFour? at h
  split at h
  · split at h
    · simp only [Option.some.injEq, Prod.mk.injEq] at h
      rw [← h.2]
      simp only [List.length_cons]
      omega
    · cases h
  · cases h

def lowSurrogate? : Text → Option (Nat × Text)
  | b :: u :: t =>
    if b = .backslash ∧ u = .ofChar 'u' then
      match hexFour? t with
      | some (n, rest) => if 0xDC00 ≤ n ∧ n ≤ 0xDFFF then some (n, rest) else none
      | none => none
    else none
  | _ => none

theorem length_lowSurrogate? {t rest : Text} {n : Nat} (h : lowSurrogate? t = some (n, rest)) :
    rest.length < t.length := by
  unfold lowSurrogate? at h
  split at h
  · split at h
    · split at h
      · split at h
        · rename_i hhex _
          have := length_hexFour? hhex
          simp only [Option.some.injEq, Prod.mk.injEq] at h
          rw [← h.2]
          simp only [List.length_cons]
          omega
        · cases h
      · cases h
    · cases h
  · cases h

/-- The code point that an escape number stands for, and the rest of the text.  A high surrogate
that is followed by an escaped low one makes one code point with it. -/
def join (n : Nat) (t : Text) : CodePoint × Text :=
  match if 0xD800 ≤ n ∧ n ≤ 0xDBFF then lowSurrogate? t else none with
  | some (m, rest) => (Fin.ofNat _ (0x10000 + 0x400 * (n - 0xD800) + (m - 0xDC00)), rest)
  | none => (Fin.ofNat _ n, t)

theorem length_join (n : Nat) (t : Text) : (join n t).2.length ≤ t.length := by
  unfold join
  split
  · rename_i h
    split at h
    · exact Nat.le_of_lt (length_lowSurrogate? h)
    · cases h
  · exact Nat.le_refl _

/-- The letters that stand for a control after a backslash. -/
def controls : List (Char × CodePoint) :=
  [('b', 0x08), ('f', 0x0C), ('n', .lineFeed), ('r', .carriageReturn), ('t', .tab)]

def escaped? (c : CodePoint) : Option CodePoint :=
  if c = .quote ∨ c = .backslash ∨ c = .slash then some c
  else (controls.find? fun entry => c = .ofChar entry.1).map (·.2)

/-- Reads the rest of a string onto `acc`, which is in reverse.  A string that does not end is
refused without its place, which is where it began. -/
def stringOnto (acc : Text) : (t : Text) → Read Text t
  | [] => .error (.malformed .unterminated 0)
  | c :: t =>
    if c = .quote then .ok ⟨(acc.reverse, t), by simp⟩
    else if c = .backslash then
      match t with
      | [] => .error (.malformed .unterminated 0)
      | e :: t =>
        if e = .ofChar 'u' then
          match h : hexFour? t with
          | none => .error (.malformed .unicodeEscape (t.length + 1))
          | some (n, rest) => do
            have := length_hexFour? h
            have := length_join n rest
            let ⟨r, hr⟩ ← stringOnto ((join n rest).1 :: acc) (join n rest).2
            return ⟨r, by simp only [List.length_cons]; omega⟩
        else
          match escaped? e with
          | none => .error (.malformed .escape (t.length + 2))
          | some c => do
            let ⟨r, hr⟩ ← stringOnto (c :: acc) t
            return ⟨r, by simp only [List.length_cons]; omega⟩
    else if c < 0x20 then .error (.malformed .control (t.length + 1))
    else do
      let ⟨r, hr⟩ ← stringOnto (c :: acc) t
      return ⟨r, by simp only [List.length_cons]; omega⟩
termination_by t => t.length

def string (t : Text) : Read Text t :=
  match stringOnto [] t with
  | .error (.malformed .unterminated _) => .error (.malformed .unterminated (t.length + 1))
  | r => r

/-! ## Numbers and literals -/

/-- Takes a run of digits off the front of a text. -/
def digits (t : Text) : Text × Text :=
  (t.takeWhile CodePoint.isDigit, t.dropWhile CodePoint.isDigit)

theorem length_digits (t : Text) : (digits t).2.length ≤ t.length :=
  (List.dropWhile_sublist _).length_le

theorem length_digits_lt {t : Text} (h : (digits t).1 ≠ []) : (digits t).2.length < t.length := by
  have := congrArg List.length (List.takeWhile_append_dropWhile (p := CodePoint.isDigit) (l := t))
  rw [List.length_append] at this
  have := List.length_pos_iff.2 h
  simp only [digits] at *
  omega

/-- Takes the digits before the point off a text.  A zero stands alone. -/
def whole (t : Text) : Text × Text :=
  match t with
  | c :: rest => if c = .zero then ([c], rest) else digits t
  | [] => ([], [])

theorem length_whole {t : Text} (h : (whole t).1 ≠ []) : (whole t).2.length < t.length := by
  unfold whole at h ⊢
  split at h
  · split at h
    · simp_all
    · rename_i hc
      rw [if_neg hc]
      exact length_digits_lt h
  · exact absurd rfl h

/-- Takes the point and the digits after it off a text, if a digit follows the point. -/
def fraction (t : Text) : Text × Text :=
  match t with
  | c :: rest => if c = .dot ∧ (digits rest).1 ≠ [] then digits rest else ([], t)
  | [] => ([], [])

theorem length_fraction (t : Text) : (fraction t).2.length ≤ t.length := by
  unfold fraction
  split
  · split
    · exact Nat.le_succ_of_le (length_digits _)
    · exact Nat.le_refl _
  · exact Nat.le_refl _

/-- Takes an exponent off a text, if a digit follows the letter and its sign. -/
def exponent (t : Text) : Option Int × Text :=
  match t with
  | c :: rest =>
    let (negative, unsigned) := Text.unsign rest
    if (c = .ofChar 'e' ∨ c = .ofChar 'E') ∧ (digits unsigned).1 ≠ [] then
      (some (Text.signed negative (Text.digitsValue (digits unsigned).1)), (digits unsigned).2)
    else (none, t)
  | [] => (none, [])

theorem length_exponent (t : Text) : (exponent t).2.length ≤ t.length := by
  unfold exponent
  split
  · dsimp only
    split
    · exact Nat.le_succ_of_le (Nat.le_trans (length_digits _) (Text.length_unsign _))
    · exact Nat.le_refl _
  · exact Nat.le_refl _

structure Numeral where
  negative : Bool
  whole : Text
  part : Text
  exponent : Option Int

/-- The value of a numeral.  It is an integer if it has neither a point nor an exponent. -/
def Numeral.value (n : Numeral) : Except Refusal Value :=
  match n.part, n.exponent with
  | [], none =>
    if Text.digitLimit < n.whole.length then .error (.tooManyDigits n.whole.length)
    else .ok (.int (Text.signed n.negative (Text.digitsValue n.whole)))
  | part, e =>
    .ok <| .number <|
      .ofDecimal n.negative (Text.digitsValue (n.whole ++ part)) (e.getD 0 - part.length)

def takeNumeral (t : Text) : Numeral × Text :=
  let negative := t.head? = some .hyphen
  let ds := whole (if negative then t.drop 1 else t)
  let part := fraction ds.2
  let e := exponent part.2
  (⟨negative, ds.1, part.1, e.1⟩, e.2)

theorem length_takeNumeral {t : Text} (h : (takeNumeral t).1.whole ≠ []) :
    (takeNumeral t).2.length < t.length := by
  simp only [takeNumeral] at h ⊢
  refine Nat.lt_of_le_of_lt (Nat.le_trans (length_exponent _) (length_fraction _))
    (Nat.lt_of_lt_of_le (length_whole h) ?_)
  split
  · exact (List.drop_sublist _ _).length_le
  · exact Nat.le_refl _

/-- Reads a number.  There is none without a digit before the point. -/
def numeral (t : Text) : Read Value t :=
  match _h : takeNumeral t with
  | (n, rest) =>
    if hn : n.whole = [] then .error (.malformed .value t.length)
    else do
      let v ← n.value
      return ⟨(v, rest), by
        have := length_takeNumeral (t := t) (by rw [_h]; exact hn)
        rwa [_h] at this⟩

def literals : List (String × Value) := [
  ("null", .null), ("true", .bool true), ("false", .bool false), ("NaN", .number .nan),
  ("Infinity", .number (.infinite false)), ("-Infinity", .number (.infinite true))]

def literal? (t : Text) : Option (Value × Text) :=
  literals.findSome? fun (word, v) =>
    if (Text.ofString word).isPrefixOf t then some (v, t.drop (Text.ofString word).length) else none

theorem length_literal? {t rest : Text} {v : Value} (h : literal? t = some (v, rest)) :
    rest.length < t.length := by
  obtain ⟨⟨word, v'⟩, hmem, h⟩ := List.exists_of_findSome?_eq_some h
  dsimp only at h
  split at h
  · rename_i hword
    simp only [Option.some.injEq, Prod.mk.injEq] at h
    have hle := (List.isPrefixOf_iff_prefix.1 hword).length_le
    have hpos : 0 < (Text.ofString word).length := by
      have hall : ∀ l ∈ literals, 0 < (Text.ofString l.1).length := by decide
      exact hall _ hmem
    rw [← h.2, List.length_drop]
    omega
  · cases h

/-- Reads a value that is neither a string nor an array nor an object. -/
def scalar (t : Text) : Read Value t :=
  match h : literal? t with
  | some (v, rest) => .ok ⟨(v, rest), length_literal? h⟩
  | none => numeral t

/-! ## Values -/

def delimiter (c : CodePoint) (cause : Cause) (t : Text) : Read Unit t :=
  match h : skip t with
  | d :: rest =>
    if d = c then
      .ok ⟨((), rest), by
        have := length_skip t
        rw [h, List.length_cons] at this
        exact this⟩
    else .error (.malformed cause (rest.length + 1))
  | [] => .error (.malformed cause 0)

mutual

/-- Reads a value.  Values may be nested in it up to `room` deep. -/
def value (room : Nat) (t : Text) : Read Value t :=
  match t with
  | [] => .error (.malformed .value 0)
  | c :: rest =>
    if c = .quote then do
      let ⟨(s, rest), h⟩ ← string rest
      return ⟨(.string s, rest), by simp only [List.length_cons] at h ⊢; omega⟩
    else if c = .bracket then
      match room with
      | 0 => .error .tooDeep
      | room + 1 => do
        let ⟨(vs, rest), h⟩ ← items room rest
        return ⟨(.array vs, rest), by simp only [List.length_cons] at h ⊢; omega⟩
    else if c = .brace then
      match room with
      | 0 => .error .tooDeep
      | room + 1 => do
        let ⟨(ms, rest), h⟩ ← members room rest
        return ⟨(.object (Members.putAll [] ms), rest), by
          simp only [List.length_cons] at h ⊢; omega⟩
    else scalar (c :: rest)
termination_by 3 * t.length

def items (room : Nat) (t : Text) : Read (List Value) t :=
  match delimiter .bracketEnd .value t with
  | .ok ⟨(_, rest), h⟩ => .ok ⟨([], rest), h⟩
  | .error _ => do
    let ⟨(vs, rest), h⟩ ← itemsFrom room (skip t)
    return ⟨(vs, rest), by have := length_skip t; simp only at h ⊢; omega⟩
termination_by 3 * t.length + 2
decreasing_by
  have := length_skip t; omega

def itemsFrom (room : Nat) (t : Text) : Read (List Value) t := do
  let ⟨(v, rest), h⟩ ← value room t
  match delimiter .bracketEnd .comma rest with
  | .ok ⟨(_, rest'), h'⟩ => return ⟨([v], rest'), by simp only at h h' ⊢; omega⟩
  | .error _ =>
    let ⟨(_, rest'), h'⟩ ← delimiter .comma .comma rest
    let ⟨(vs, rest''), h''⟩ ← itemsFrom room (skip rest')
    return ⟨(v :: vs, rest''), by
      have := length_skip rest'; simp only at h h' h'' ⊢; omega⟩
termination_by 3 * t.length + 1
decreasing_by
  · omega
  · have := length_skip rest'; simp only at h h'; omega

/-- Reads the members of an object and its end.  Where a key is repeated, so is its member. -/
def members (room : Nat) (t : Text) : Read Members t :=
  match delimiter .braceEnd .propertyName t with
  | .ok ⟨(_, rest), h⟩ => .ok ⟨([], rest), h⟩
  | .error _ => do
    let ⟨(ms, rest), h⟩ ← membersFrom room (skip t)
    return ⟨(ms, rest), by have := length_skip t; simp only at h ⊢; omega⟩
termination_by 3 * t.length + 2
decreasing_by
  have := length_skip t; omega

def membersFrom (room : Nat) (t : Text) : Read Members t := do
  let ⟨(_, body), hq⟩ ← delimiter .quote .propertyName t
  let ⟨(key, rest), hk⟩ ← string body
  let ⟨(_, rest'), hc⟩ ← delimiter .colon .colon rest
  let ⟨(v, rest''), hv⟩ ← value room (skip rest')
  have hlen : rest''.length < t.length := by
    have := length_skip rest'
    simp only at hq hk hc hv
    omega
  match delimiter .braceEnd .comma rest'' with
  | .ok ⟨(_, rest), h⟩ => return ⟨([(key, v)], rest), by simp only at h ⊢; omega⟩
  | .error _ =>
    let ⟨(_, rest), h⟩ ← delimiter .comma .comma rest''
    let ⟨(ms, rest'''), h'⟩ ← membersFrom room (skip rest)
    return ⟨((key, v) :: ms, rest'''), by have := length_skip rest; simp only at h h' ⊢; omega⟩
termination_by 3 * t.length + 1
decreasing_by
  · have := length_skip rest'
    simp only at hq hk hc
    omega
  · have := length_skip rest
    simp only at h
    omega

end

end LineShell.Json
