import LineShell.Text.Utf8
import Mathlib.Data.List.TakeWhile

/-!
# Bytes through text and back

Text with escapes carries **any** bytes, and what a text becomes when it is written does not depend
on the text around it.

* `Text.Encodable`: every code point of the text has bytes.  Then the text can be encoded, and the
  result is `Text.coded`, the bytes of its code points in a row (`Text.encode_eq_ok`).
* `Utf8.scan_found`: a code point that is found is no surrogate, and its sequence is what it was
  found in.
* `Text.encodable_ofBytes`, `Text.coded_ofBytes`: decoded bytes can be encoded, and then they are
  what they were.
-/

namespace LineShell

/-! ## Encoding piece by piece -/

namespace Text

/-- Every code point of the text has bytes. -/
def Encodable (t : Text) : Prop := ∀ c ∈ t, Utf8.isEncodable c = true

instance (t : Text) : Decidable t.Encodable :=
  inferInstanceAs (Decidable (∀ c ∈ t, Utf8.isEncodable c = true))

def coded (t : Text) : Bytes := t.flatMap Utf8.codeBytes

/-- **A text whose code points all have bytes can be encoded.** -/
theorem encode_eq_ok {t : Text} (h : t.Encodable) : t.encode = .ok t.coded := by
  have hd : t.dropWhile Utf8.isEncodable = [] := List.dropWhile_eq_nil_iff.mpr h
  rw [encode, unencodable?]
  simp only [hd]
  rfl

theorem encode_eq_error {t : Text} (h : ¬ t.Encodable) : ∃ place, t.encode = .error place := by
  have hd : t.dropWhile Utf8.isEncodable ≠ [] := fun hd => h (List.dropWhile_eq_nil_iff.mp hd)
  obtain ⟨c, rest, hc⟩ := List.exists_cons_of_ne_nil hd
  rw [encode, unencodable?]
  simp only [hc]
  exact ⟨_, rfl⟩

theorem encodable_append {t u : Text} : (t ++ u).Encodable ↔ t.Encodable ∧ u.Encodable := by
  simp only [Encodable, List.mem_append, or_imp, forall_and]

theorem coded_append (t u : Text) : (t ++ u).coded = t.coded ++ u.coded := List.flatMap_append

end Text

/-! ## Characters are no surrogates -/

namespace CodePoint

theorem isSurrogate_iff {c : CodePoint} :
    c.isSurrogate = true ↔ 0xD800 ≤ c.val ∧ c.val ≤ 0xDFFF := by
  rw [isSurrogate, Bool.and_eq_true, decide_eq_true_iff, decide_eq_true_iff, Fin.le_def, Fin.le_def]
  exact Iff.rfl

theorem isSurrogate_ofChar (c : Char) : (ofChar c).isSurrogate = false := by
  rw [Bool.eq_false_iff, Ne, isSurrogate_iff]
  rintro ⟨h1, h2⟩
  change 0xD800 ≤ c.val.toNat at h1
  change c.val.toNat ≤ 0xDFFF at h2
  rcases c.valid with h | ⟨h, -⟩ <;> omega

end CodePoint

namespace Utf8

theorem isEscape_iff {c : CodePoint} : isEscape c = true ↔ 0xDC80 ≤ c.val ∧ c.val ≤ 0xDCFF := by
  rw [isEscape, Bool.and_eq_true, decide_eq_true_iff, decide_eq_true_iff, Fin.le_def, Fin.le_def]
  exact Iff.rfl

theorem isEncodable_of_not_surrogate {c : CodePoint} (h : c.isSurrogate = false) :
    isEncodable c = true := by
  rw [isEncodable, h, Bool.not_false, Bool.or_true]

theorem codeBytes_of_not_surrogate {c : CodePoint} (h : c.isSurrogate = false) :
    codeBytes c = sequence c := by
  refine if_neg fun he => ?_
  rw [Bool.eq_false_iff, Ne, CodePoint.isSurrogate_iff] at h
  rw [isEscape_iff] at he
  omega

end Utf8

namespace Text

theorem encodable_ofChars (cs : List Char) : Encodable (cs.map CodePoint.ofChar) := by
  intro c hc
  obtain ⟨ch, -, rfl⟩ := List.mem_map.mp hc
  exact Utf8.isEncodable_of_not_surrogate (CodePoint.isSurrogate_ofChar ch)

theorem encodable_ofString (s : String) : (ofString s).Encodable := encodable_ofChars _

theorem encodable_decimal (n : Nat) : (decimal n).Encodable := encodable_ofChars _

theorem encodable_ofInt (n : Int) : (ofInt n).Encodable := by
  unfold ofInt
  split
  · intro c hc
    rcases List.mem_cons.mp hc with rfl | hc
    · decide
    · exact encodable_decimal _ c hc
  · exact encodable_decimal _

theorem encodable_lineFeed : Encodable [CodePoint.lineFeed] :=
  List.forall_mem_singleton.mpr (by decide)

end Text

/-! ## The sequence of a code point -/

namespace Utf8

theorem byte_eq {n : Nat} {b : UInt8} (h : n = b.toNat) : byte n = b := by
  rw [byte, h, UInt8.ofNat_toNat]

theorem sequence_one {b : UInt8} (h : b.toNat < 0x80) : sequence (Fin.ofNat _ b.toNat) = [b] := by
  have hv : (Fin.ofNat 0x110000 b.toNat).val = b.toNat := Nat.mod_eq_of_lt (by omega)
  rw [sequence, hv]
  simp only [if_pos h]
  rw [byte_eq rfl]

theorem sequence_two {a b : UInt8} {bits : Nat} (ha : a.toNat = 0xC0 + bits) (hl : 2 ≤ bits)
    (hh : bits < 0x20) (hb : 0x80 ≤ b.toNat) (hb' : b.toNat ≤ 0xBF) :
    sequence (Fin.ofNat _ (64 * bits + (b.toNat - 0x80))) = [a, b] := by
  have hv : (Fin.ofNat 0x110000 (64 * bits + (b.toNat - 0x80))).val =
      64 * bits + (b.toNat - 0x80) :=
    Nat.mod_eq_of_lt (by omega)
  rw [sequence, hv]
  simp only [if_neg (show ¬ 64 * bits + (b.toNat - 0x80) < 0x80 by omega),
    if_pos (show 64 * bits + (b.toNat - 0x80) < 0x800 by omega)]
  rw [byte_eq (b := a) (by omega), byte_eq (b := b) (by omega)]

theorem sequence_three {a b c : UInt8} {bits n : Nat} (ha : a.toNat = 0xE0 + bits)
    (hh : bits < 0x10) (hb : 0x80 ≤ b.toNat) (hb' : b.toNat ≤ 0xBF) (hc : 0x80 ≤ c.toNat)
    (hc' : c.toNat ≤ 0xBF) (hn : n = 64 * (64 * bits + (b.toNat - 0x80)) + (c.toNat - 0x80))
    (hl : 0x800 ≤ n) : sequence (Fin.ofNat _ n) = [a, b, c] := by
  have hv : (Fin.ofNat 0x110000 n).val = n := Nat.mod_eq_of_lt (by omega)
  rw [sequence, hv]
  simp only [if_neg (show ¬ n < 0x80 by omega), if_neg (show ¬ n < 0x800 by omega),
    if_pos (show n < 0x10000 by omega)]
  rw [byte_eq (b := a) (by omega), byte_eq (b := b) (by omega), byte_eq (b := c) (by omega)]

theorem sequence_four {a b c d : UInt8} {bits n : Nat} (ha : a.toNat = 0xF0 + bits)
    (hb : 0x80 ≤ b.toNat) (hb' : b.toNat ≤ 0xBF) (hc : 0x80 ≤ c.toNat) (hc' : c.toNat ≤ 0xBF)
    (hd : 0x80 ≤ d.toNat) (hd' : d.toNat ≤ 0xBF)
    (hn : n = 64 * (64 * (64 * bits + (b.toNat - 0x80)) + (c.toNat - 0x80)) + (d.toNat - 0x80))
    (hl : 0x10000 ≤ n) (hh : n < 0x110000) : sequence (Fin.ofNat _ n) = [a, b, c, d] := by
  have hv : (Fin.ofNat 0x110000 n).val = n := Nat.mod_eq_of_lt hh
  rw [sequence, hv]
  simp only [if_neg (show ¬ n < 0x80 by omega), if_neg (show ¬ n < 0x800 by omega),
    if_neg (show ¬ n < 0x10000 by omega)]
  rw [byte_eq (b := a) (by omega), byte_eq (b := b) (by omega), byte_eq (b := c) (by omega),
    byte_eq (b := d) (by omega)]

/-! ### What is found -/

/-- A byte in the range that is left to it is read onto the bits. -/
theorem follow_found {more bits taken : Nat} {low high : UInt8} {bs rest : Bytes} {c : CodePoint}
    (h : follow (more + 1) bits low high taken bs = .found c rest) :
    ∃ b bs', bs = b :: bs' ∧ low.toNat ≤ b.toNat ∧ b.toNat ≤ high.toNat ∧
      follow more (64 * bits + (b.toNat - 0x80)) 0x80 0xBF (taken + 1) bs' = .found c rest := by
  cases bs with
  | nil => cases h
  | cons b bs' =>
    rw [follow] at h
    split at h
    · rename_i hb
      exact ⟨b, bs', rfl, UInt8.le_iff_toNat_le.mp hb.1, UInt8.le_iff_toNat_le.mp hb.2, h⟩
    · cases h

theorem follow_zero {bits taken : Nat} {low high : UInt8} {bs rest : Bytes} {c : CodePoint}
    (h : follow 0 bits low high taken bs = .found c rest) : c = Fin.ofNat _ bits ∧ rest = bs := by
  rw [follow, Scan.found.injEq] at h
  exact ⟨h.1.symm, h.2.symm⟩

theorem isSurrogate_ofNat {n : Nat} (hn : n < 0x110000) (h : n < 0xD800 ∨ 0xDFFF < n) :
    CodePoint.isSurrogate (Fin.ofNat 0x110000 n) = false := by
  rw [Bool.eq_false_iff, Ne, CodePoint.isSurrogate_iff, Fin.val_ofNat, Nat.mod_eq_of_lt hn]
  omega

theorem found_two {a : UInt8} {bs rest : Bytes} {c : CodePoint} (ha : 0xC2 ≤ a.toNat)
    (ha' : a.toNat ≤ 0xDF)
    (h : follow 1 (a.toNat - 0xC0) 0x80 0xBF 1 bs = .found c rest) :
    c.isSurrogate = false ∧ sequence c ++ rest = a :: bs := by
  obtain ⟨b, bs, rfl, hb, hb', h⟩ := follow_found h
  obtain ⟨rfl, rfl⟩ := follow_zero h
  change 0x80 ≤ b.toNat at hb
  change b.toNat ≤ 0xBF at hb'
  refine ⟨isSurrogate_ofNat (by omega) (by omega), ?_⟩
  rw [sequence_two (a := a) (by omega) (by omega) (by omega) hb hb']
  rfl

/-- The bits of the first byte and the range of the second one leave neither a shorter sequence nor
a surrogate. -/
theorem found_three {a : UInt8} {bits : Nat} {low high : UInt8} {bs rest : Bytes} {c : CodePoint}
    (ha : a.toNat = 0xE0 + bits) (hbits : bits < 0x10) (hlow : 0x80 ≤ low.toNat)
    (hhigh : high.toNat ≤ 0xBF) (hshort : 0x800 ≤ 64 * (64 * bits + (low.toNat - 0x80)))
    (hsur : bits < 0xD ∨ 0xD < bits ∨ high.toNat ≤ 0x9F)
    (h : follow 2 bits low high 1 bs = .found c rest) :
    c.isSurrogate = false ∧ sequence c ++ rest = a :: bs := by
  obtain ⟨b, bs, rfl, hb, hb', h⟩ := follow_found h
  obtain ⟨d, bs, rfl, hd, hd', h⟩ := follow_found h
  obtain ⟨rfl, rfl⟩ := follow_zero h
  change 0x80 ≤ d.toNat at hd
  change d.toNat ≤ 0xBF at hd'
  refine ⟨isSurrogate_ofNat (by omega) (by omega), ?_⟩
  rw [sequence_three ha hbits (by omega) (by omega) hd hd' rfl (by omega)]
  rfl

theorem found_four {a : UInt8} {bits : Nat} {low high : UInt8} {bs rest : Bytes} {c : CodePoint}
    (ha : a.toNat = 0xF0 + bits) (hlow : 0x80 ≤ low.toNat) (hhigh : high.toNat ≤ 0xBF)
    (hshort : 0x10 ≤ 64 * bits + (low.toNat - 0x80))
    (hlong : 64 * bits + (high.toNat - 0x80) < 0x110)
    (h : follow 3 bits low high 1 bs = .found c rest) :
    c.isSurrogate = false ∧ sequence c ++ rest = a :: bs := by
  obtain ⟨b, bs, rfl, hb, hb', h⟩ := follow_found h
  obtain ⟨d, bs, rfl, hd, hd', h⟩ := follow_found h
  obtain ⟨e, bs, rfl, he, he', h⟩ := follow_found h
  obtain ⟨rfl, rfl⟩ := follow_zero h
  change 0x80 ≤ d.toNat at hd
  change d.toNat ≤ 0xBF at hd'
  change 0x80 ≤ e.toNat at he
  change e.toNat ≤ 0xBF at he'
  refine ⟨isSurrogate_ofNat (by omega) (by omega), ?_⟩
  rw [sequence_four ha (by omega) (by omega) hd hd' he he' rfl (by omega) (by omega)]
  rfl

/-- What each of the first bytes leaves open fits one of the three lengths. -/
theorem lead_found {a : UInt8} {l : Lead} {bs rest : Bytes} {c : CodePoint} (hl : lead? a = some l)
    (h : follow l.more l.bits l.low l.high 1 bs = .found c rest) :
    c.isSurrogate = false ∧ sequence c ++ rest = a :: bs := by
  unfold lead? at hl
  simp only [UInt8.le_iff_toNat_le] at hl
  split at hl
  · rename_i ha
    cases hl
    exact found_two ha.1 ha.2 h
  split at hl
  · cases hl
    subst a
    exact found_three (by decide) (by decide) (by decide) (by decide) (by decide) (by decide) h
  split at hl
  · cases hl
    subst a
    exact found_three (by decide) (by decide) (by decide) (by decide) (by decide) (by decide) h
  split at hl
  · rename_i hE0 hED ha
    cases hl
    dsimp only at h
    have hE0 : a.toNat ≠ 0xE0 := fun h => hE0 (UInt8.toNat_inj.mp h)
    have hED : a.toNat ≠ 0xED := fun h => hED (UInt8.toNat_inj.mp h)
    obtain ⟨ha, ha'⟩ := ha
    change 0xE1 ≤ a.toNat at ha
    change a.toNat ≤ 0xEF at ha'
    exact found_three (by omega) (by omega) (by decide) (by decide)
      (by simp only [UInt8.reduceToNat]; omega) (by omega) h
  split at hl
  · cases hl
    subst a
    exact found_four (by decide) (by decide) (by decide) (by decide) (by decide) h
  split at hl
  · rename_i ha
    cases hl
    dsimp only at h
    obtain ⟨ha, ha'⟩ := ha
    change 0xF1 ≤ a.toNat at ha
    change a.toNat ≤ 0xF3 at ha'
    exact found_four (by omega) (by decide) (by decide)
      (by simp only [UInt8.reduceToNat]; omega) (by simp only [UInt8.reduceToNat]; omega) h
  split at hl
  · cases hl
    subst a
    exact found_four (by decide) (by decide) (by decide) (by decide) (by decide) h
  cases hl

/-- **A code point that is found is no surrogate, and its sequence is what it was found in.** -/
theorem scan_found {b : UInt8} {bs rest : Bytes} {c : CodePoint}
    (h : scan b bs = .found c rest) : c.isSurrogate = false ∧ sequence c ++ rest = b :: bs := by
  unfold scan at h
  split at h
  · rename_i hb
    rw [Scan.found.injEq] at h
    obtain ⟨rfl, rfl⟩ := h
    have hb : b.toNat < 0x80 := UInt8.lt_iff_toNat_lt.mp hb
    refine ⟨isSurrogate_ofNat (by omega) (by omega), ?_⟩
    rw [sequence_one hb]
    rfl
  · split at h
    · rename_i l hl
      exact lead_found hl h
    · cases h

theorem le_of_scan_malformed {b : UInt8} {bs : Bytes} {n : Nat} {reason : Reason}
    (h : scan b bs = .malformed n reason) : 0x80 ≤ b.toNat := by
  unfold scan at h
  split at h
  · cases h
  · rename_i hb
    rw [UInt8.lt_iff_toNat_lt] at hb
    exact not_lt.mp hb

/-! ### Escapes -/

theorem val_escape (b : UInt8) : (escape b).val = 0xDC00 + b.toNat := by
  have := b.toNat_lt
  exact Nat.mod_eq_of_lt (by omega)

theorem isEscape_escape {b : UInt8} (h : 0x80 ≤ b.toNat) : isEscape (escape b) = true := by
  have := b.toNat_lt
  rw [isEscape_iff, val_escape]
  omega

/-- The escape of a byte from 0x80 on stands for that byte. -/
theorem codeBytes_escape {b : UInt8} (h : 0x80 ≤ b.toNat) : codeBytes (escape b) = [b] := by
  rw [codeBytes, if_pos (isEscape_escape h), val_escape, byte_eq (b := b) (by omega)]

end Utf8

/-! ## Decoding and then encoding -/

/-- Decoding onto a text leaves the text and adds what can be encoded to the bytes that were
decoded. -/
theorem Utf8.decodeOnto_spec (acc : Text) (bs : Bytes) :
    ∃ t, decodeOnto acc bs = acc.reverse ++ t ∧ t.Encodable ∧ t.coded = bs := by
  fun_induction decodeOnto acc bs with
  | case1 acc => exact ⟨[], by simp, by simp [Text.Encodable], rfl⟩
  | case2 acc b bs c rest h ih =>
    obtain ⟨t, ht, he, hc⟩ := ih
    obtain ⟨hs, hseq⟩ := scan_found h
    refine ⟨c :: t, by simp [ht], ?_, ?_⟩
    · exact List.forall_mem_cons.mpr ⟨isEncodable_of_not_surrogate hs, he⟩
    · rw [Text.coded, List.flatMap_cons, codeBytes_of_not_surrogate hs, ← hseq, ← hc]
      rfl
  | case3 acc b bs n reason h ih =>
    obtain ⟨t, ht, he, hc⟩ := ih
    have hb := le_of_scan_malformed h
    refine ⟨escape b :: t, by simp [ht], ?_, ?_⟩
    · refine List.forall_mem_cons.mpr ⟨?_, he⟩
      rw [isEncodable, isEscape_escape hb, Bool.true_or]
    · rw [Text.coded, List.flatMap_cons, codeBytes_escape hb, ← hc]
      rfl

namespace Text

theorem ofBytes_spec (bs : Bytes) : (ofBytes bs).Encodable ∧ (ofBytes bs).coded = bs := by
  obtain ⟨t, ht, he, hc⟩ := Utf8.decodeOnto_spec [] bs
  rw [ofBytes, ht]
  exact ⟨he, hc⟩

/-- **Decoded bytes can be encoded**, whatever they are. -/
theorem encodable_ofBytes (bs : Bytes) : (ofBytes bs).Encodable := (ofBytes_spec bs).1

/-- **Bytes come back from text as they were.** -/
theorem coded_ofBytes (bs : Bytes) : (ofBytes bs).coded = bs := (ofBytes_spec bs).2

end Text

end LineShell
