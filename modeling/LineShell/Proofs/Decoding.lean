import LineShell.Proofs.Encoding

/-!
# Text that is written as UTF-8

Text without surrogates is written as UTF-8 and read back, whether the reader is strict or not.

* `Utf8.scan_sequence`: the code point is found at the front of its sequence.
* `Text.ofBytes_utf8`, `Text.ofUtf8_utf8`: the whole text is found.
* `Text.shown`: a text with its surrogates spelled out; `Text.spell_eq`: reports are that.
-/

namespace LineShell

namespace Utf8

/-! ## One sequence -/

theorem toNat_byte {n : Nat} (h : n < 0x100) : (byte n).toNat = n :=
  UInt8.toNat_ofNat_of_lt' h

/-! The first byte of a sequence of two, three and four bytes, by the bits that it carries. -/

theorem lead?_two {k : Nat} (hk : 2 ≤ k) (hk' : k < 0x20) :
    lead? (byte (0xC0 + k)) = some ⟨1, k, 0x80, 0xBF⟩ := by
  have hall : ∀ k : Fin 0x20, 2 ≤ k.val →
      lead? (byte (0xC0 + k.val)) = some ⟨1, k.val, 0x80, 0xBF⟩ := by decide
  exact hall ⟨k, hk'⟩ hk

theorem lead?_three {k : Nat} (hk : k < 0x10) : lead? (byte (0xE0 + k)) =
    some ⟨2, k, if k = 0 then 0xA0 else 0x80, if k = 0xD then 0x9F else 0xBF⟩ := by
  have hall : ∀ k : Fin 0x10, lead? (byte (0xE0 + k.val)) =
      some ⟨2, k.val, if k.val = 0 then 0xA0 else 0x80, if k.val = 0xD then 0x9F else 0xBF⟩ := by
    decide
  exact hall ⟨k, hk⟩

theorem lead?_four {k : Nat} (hk : k < 5) : lead? (byte (0xF0 + k)) =
    some ⟨3, k, if k = 0 then 0x90 else 0x80, if k = 4 then 0x8F else 0xBF⟩ := by
  have hall : ∀ k : Fin 5, lead? (byte (0xF0 + k.val)) =
      some ⟨3, k.val, if k.val = 0 then 0x90 else 0x80, if k.val = 4 then 0x8F else 0xBF⟩ := by
    decide
  exact hall ⟨k, hk⟩

theorem scan_of_lead {n : Nat} {l : Lead} (hn : 0x80 ≤ n) (hn' : n < 0x100)
    (hl : lead? (byte n) = some l) (bs : Bytes) :
    scan (byte n) bs = follow l.more l.bits l.low l.high 1 bs := by
  have hbyte : ¬ byte n < 0x80 := by
    rw [UInt8.lt_iff_toNat_lt, toNat_byte hn']
    exact Nat.not_lt.mpr hn
  rw [scan, if_neg hbyte, hl]

/-- The six bits of a further byte are read onto the others. -/
theorem follow_byte {n more bits taken : Nat} {low high : UInt8} (hn : n < 0x40)
    (hlow : low.toNat ≤ 0x80 + n) (hhigh : 0x80 + n ≤ high.toNat) (rest : Bytes) :
    follow (more + 1) bits low high taken (byte (0x80 + n) :: rest) =
      follow more (64 * bits + n) 0x80 0xBF (taken + 1) rest := by
  have hbyte : (byte (0x80 + n)).toNat = 0x80 + n := toNat_byte (by omega)
  have hrange : low ≤ byte (0x80 + n) ∧ byte (0x80 + n) ≤ high := by
    rw [UInt8.le_iff_toNat_le, UInt8.le_iff_toNat_le, hbyte]
    exact ⟨hlow, hhigh⟩
  rw [follow, if_pos hrange, hbyte, Nat.add_sub_cancel_left]

/-- Behind the second byte nothing depends on the first. -/
theorem follow_further {n more bits taken : Nat} (hn : n < 0x40) (rest : Bytes) :
    follow (more + 1) bits 0x80 0xBF taken (byte (0x80 + n) :: rest) =
      follow more (64 * bits + n) 0x80 0xBF (taken + 1) rest :=
  follow_byte hn (Nat.le_add_right _ _)
    (show 0x80 + n ≤ (0xBF : UInt8).toNat from (by omega : 0x80 + n ≤ 0xBF)) rest

theorem follow_end {bits taken : Nat} {low high : UInt8} {c : CodePoint} (hc : c.val = bits)
    (rest : Bytes) : follow 0 bits low high taken rest = .found c rest := by
  rw [follow, ← hc, Fin.ofNat_val_eq_self]

theorem scan_two {c : CodePoint} (h : 0x80 ≤ c.val) (h' : c.val < 0x800) (rest : Bytes) :
    scan (byte (0xC0 + c.val / 0x40)) (byte (0x80 + c.val % 0x40) :: rest) = .found c rest := by
  rw [scan_of_lead (by omega) (by omega) (lead?_two (by omega) (by omega))]
  dsimp only
  rw [follow_further (by omega)]
  exact follow_end (by omega) rest

/-- A second byte below the range of its first one would make the sequence too long, and above it a
surrogate. -/
theorem scan_three {c : CodePoint} (h : 0x800 ≤ c.val) (h' : c.val < 0x10000)
    (hsur : c.val < 0xD800 ∨ 0xDFFF < c.val) (rest : Bytes) :
    scan (byte (0xE0 + c.val / 0x1000))
      (byte (0x80 + c.val / 0x40 % 0x40) :: byte (0x80 + c.val % 0x40) :: rest) =
      .found c rest := by
  rw [scan_of_lead (by omega) (by omega) (lead?_three (by omega))]
  dsimp only
  rw [follow_byte (by omega), follow_further (by omega)]
  · exact follow_end (by omega) rest
  · split
    · show 0xA0 ≤ _
      omega
    · exact Nat.le_add_right _ _
  · split
    · show _ ≤ 0x9F
      omega
    · show _ ≤ 0xBF
      omega

theorem scan_four {c : CodePoint} (h : 0x10000 ≤ c.val) (rest : Bytes) :
    scan (byte (0xF0 + c.val / 0x40000))
      (byte (0x80 + c.val / 0x1000 % 0x40) :: byte (0x80 + c.val / 0x40 % 0x40) ::
        byte (0x80 + c.val % 0x40) :: rest) = .found c rest := by
  have hlt := c.isLt
  rw [scan_of_lead (by omega) (by omega) (lead?_four (by omega))]
  dsimp only
  rw [follow_byte (by omega), follow_further (by omega), follow_further (by omega)]
  · exact follow_end (by omega) rest
  · split
    · show 0x90 ≤ _
      omega
    · exact Nat.le_add_right _ _
  · split
    · show _ ≤ 0x8F
      omega
    · show _ ≤ 0xBF
      omega

/-- **A code point that is no surrogate is found at the front of its sequence.** -/
theorem scan_sequence {c : CodePoint} (hc : c.isSurrogate = false) (rest : Bytes) :
    ∃ b bs, sequence c = b :: bs ∧ scan b (bs ++ rest) = .found c rest := by
  rw [Bool.eq_false_iff, Ne, CodePoint.isSurrogate_iff] at hc
  unfold sequence
  dsimp only
  split
  · rename_i hone
    have hbyte : (byte c.val).toNat = c.val := toNat_byte (by omega)
    have hsmall : byte c.val < 0x80 := by
      rw [UInt8.lt_iff_toNat_lt, hbyte]
      exact hone
    refine ⟨_, _, rfl, ?_⟩
    rw [scan, if_pos hsmall, hbyte, Fin.ofNat_val_eq_self]
    rfl
  split
  · rename_i hone htwo
    exact ⟨_, _, rfl, scan_two (by omega) htwo rest⟩
  split
  · rename_i hone htwo hthree
    exact ⟨_, _, rfl, scan_three (by omega) hthree (by omega) rest⟩
  · rename_i hone htwo hthree
    exact ⟨_, _, rfl, scan_four (by omega) rest⟩

/-! ## Whole texts -/

variable {t : Text}

theorem decodeOnto_sequences (ht : ∀ c ∈ t, c.isSurrogate = false) (acc : Text) :
    decodeOnto acc (t.flatMap sequence) = acc.reverse ++ t := by
  induction t generalizing acc with
  | nil => simp [decodeOnto]
  | cons c t ih =>
    obtain ⟨hc, ht⟩ := List.forall_mem_cons.mp ht
    obtain ⟨b, bs, hseq, hscan⟩ := scan_sequence hc (t.flatMap sequence)
    rw [List.flatMap_cons, hseq, List.cons_append, decodeOnto]
    split
    · rename_i hfound
      obtain ⟨rfl, rfl⟩ := Scan.found.inj (hscan.symm.trans hfound)
      rw [ih ht, List.reverse_cons, List.append_assoc]
      rfl
    · rename_i hbad
      cases hscan.symm.trans hbad

theorem malformed?_sequences (ht : ∀ c ∈ t, c.isSurrogate = false) :
    malformed? (t.flatMap sequence) = none := by
  induction t with
  | nil => simp [malformed?]
  | cons c t ih =>
    obtain ⟨hc, ht⟩ := List.forall_mem_cons.mp ht
    obtain ⟨b, bs, hseq, hscan⟩ := scan_sequence hc (t.flatMap sequence)
    rw [List.flatMap_cons, hseq, List.cons_append, malformed?]
    split
    · rename_i hfound
      obtain ⟨rfl, rfl⟩ := Scan.found.inj (hscan.symm.trans hfound)
      exact ih ht
    · rename_i hbad
      cases hscan.symm.trans hbad

end Utf8

namespace Text

def utf8 (t : Text) : Bytes := t.flatMap Utf8.sequence

variable {t : Text}

/-- **Text without surrogates is read back from its UTF-8.** -/
theorem ofBytes_utf8 (ht : ∀ c ∈ t, c.isSurrogate = false) : ofBytes t.utf8 = t :=
  Utf8.decodeOnto_sequences ht []

theorem ofUtf8_utf8 (ht : ∀ c ∈ t, c.isSurrogate = false) : ofUtf8 t.utf8 = .ok t := by
  rw [ofUtf8, Utf8.defect?, utf8, Utf8.malformed?_sequences ht]
  exact congrArg Except.ok (ofBytes_utf8 ht)

/-- Without surrogates there is nothing to escape. -/
theorem coded_eq_utf8 (ht : ∀ c ∈ t, c.isSurrogate = false) : t.coded = t.utf8 :=
  congrArg List.flatten (List.map_congr_left fun c hc => Utf8.codeBytes_of_not_surrogate (ht c hc))

end Text

/-! ## Surrogates that are spelled out -/

/-- How a code point is reported: a surrogate as a backslash, the letter `u` and the four
hexadecimal digits of its number, and any other by itself. -/
def CodePoint.shown (c : CodePoint) : Text :=
  if c.isSurrogate then .backslash :: .ofChar 'u' ::
    [c.val / 0x1000, c.val / 0x100 % 0x10, c.val / 0x10 % 0x10, c.val % 0x10].map fun d =>
      .ofChar d.digitChar
  else [c]

namespace Text

def shown (t : Text) : Text := t.flatMap CodePoint.shown

theorem hex_four {n : Nat} (h : 0x1000 ≤ n) (h' : n < 0x10000) : hex 4 n =
    [n / 0x1000, n / 0x100 % 0x10, n / 0x10 % 0x10, n % 0x10].map fun d => .ofChar d.digitChar := by
  have hdigits : Nat.toDigits 16 n = [(n / 0x1000).digitChar, (n / 0x100 % 0x10).digitChar,
      (n / 0x10 % 0x10).digitChar, (n % 0x10).digitChar] := by
    rw [Nat.toDigits_eq_if (by decide), if_neg (by omega), Nat.toDigits_eq_if (by decide),
      if_neg (by omega), Nat.toDigits_eq_if (by decide), if_neg (by omega),
      Nat.toDigits_eq_if (by decide), if_pos (by omega)]
    simp only [Nat.div_div_eq_div_mul, List.cons_append, List.nil_append, Nat.reduceMul]
  rw [hex, hdigits]
  rfl

theorem spellCode_eq (c : CodePoint) : spellCode c = c.shown := by
  unfold spellCode CodePoint.shown
  split
  · rename_i hc
    have hrange := CodePoint.isSurrogate_iff.mp hc
    rw [hex_four (by omega) (by omega)]
    rfl
  · rfl

/-- **A report is the UTF-8 of its text with all surrogates spelled out.** -/
theorem spell_eq (t : Text) : t.spell = t.shown.utf8 := by
  rw [spell, funext spellCode_eq]
  rfl

variable {t : Text}

theorem isSurrogate_of_mem_shown {c : CodePoint} (h : c ∈ t.shown) : c.isSurrogate = false := by
  obtain ⟨d, -, hc⟩ := List.mem_flatMap.mp h
  unfold CodePoint.shown at hc
  split at hc
  · rcases List.mem_cons.mp hc with rfl | hc
    · rfl
    rcases List.mem_cons.mp hc with rfl | hc
    · rfl
    obtain ⟨n, -, rfl⟩ := List.mem_map.mp hc
    exact CodePoint.isSurrogate_ofChar _
  · rename_i hd
    rw [List.mem_singleton.mp hc]
    exact Bool.eq_false_iff.mpr hd

/-- Whoever reads a report finds the text with its surrogates spelled out. -/
theorem ofUtf8_shown (t : Text) : ofUtf8 t.shown.utf8 = .ok t.shown :=
  ofUtf8_utf8 fun _ => isSurrogate_of_mem_shown

/-- Without surrogates there is nothing to spell out. -/
theorem spell_eq_utf8 (ht : ∀ c ∈ t, c.isSurrogate = false) : t.spell = t.utf8 := by
  induction t with
  | nil => rfl
  | cons c t ih =>
    obtain ⟨hc, ht⟩ := List.forall_mem_cons.mp ht
    have hcode : c.shown = [c] := if_neg (by simp [hc])
    have ih := ih ht
    rw [spell_eq] at ih ⊢
    rw [shown, List.flatMap_cons, hcode]
    exact congrArg (Utf8.sequence c ++ ·) ih

end Text

end LineShell
