import LineShell.Proofs.Layers
import LineShell.Proofs.Numerals
import LineShell.Proofs.Encoding

/-!
# Documents as they are written

There are many ways to write the same object: a code point in a string by itself or behind a
backslash, and blanks between the parts.  Whatever way is taken, the object is read back.

* `Json.HexFour`, `Json.Spells`: an escape number; how one code point of a string is written.
* `Json.Quoted`, `Json.Forms`, `Json.Listed`: strings, values and members.
* `Json.Takes`: what a reader takes, and what it leaves.
* `Json.Document`: a whole document; `Json.Document.ofText`: it is read back.
* `Json.Document.unixLines`: it remains one when its line ends become line feeds.
-/

namespace LineShell.Json

/-! ## How strings are written -/

/-- A high surrogate, and a low one. -/
def IsHigh (n : Nat) : Prop := 0xD800 ≤ n ∧ n ≤ 0xDBFF

def IsLow (n : Nat) : Prop := 0xDC00 ≤ n ∧ n ≤ 0xDFFF

instance (n : Nat) : Decidable (IsHigh n) := inferInstanceAs (Decidable (_ ∧ _))

instance (n : Nat) : Decidable (IsLow n) := inferInstanceAs (Decidable (_ ∧ _))

/-- Four hexadecimal digits for a number, small letters or capitals. -/
structure HexFour (n : Nat) (ds : Text) : Prop where
  lt : n < 0x10000
  lowered_eq : ds.map CodePoint.lowered =
    [n / 0x1000, n / 0x100 % 0x10, n / 0x10 % 0x10, n % 0x10].map fun d => .ofChar d.digitChar

def numbered (ds : Text) : Text := .backslash :: .ofChar 'u' :: ds

/-- A text starts with a code point as it may be written in a string, and goes on with `t`: the code
point stands for itself, or it is escaped by a backslash, by the letter of a control, by its number
or by those of two surrogates. -/
inductive Spells (c : CodePoint) : Text → Text → Prop
  | raw {t : Text} : ¬ c < 0x20 → c ≠ .quote → c ≠ .backslash → c.isSurrogate = false →
      Spells c (c :: t) t
  | mark {t : Text} : c = .quote ∨ c = .backslash ∨ c = .slash → Spells c (.backslash :: c :: t) t
  | control {letter : Char} {t : Text} : (letter, c) ∈ controls →
      Spells c (.backslash :: .ofChar letter :: t) t
  | number {ds t : Text} : HexFour c.val ds → ¬ IsHigh c.val → Spells c (numbered ds ++ t) t
  | pair {n m : Nat} {ds ds' t : Text} : HexFour n ds → HexFour m ds' → IsHigh n → IsLow m →
      c.val = 0x10000 + 0x400 * (n - 0xD800) + (m - 0xDC00) →
      Spells c (numbered ds ++ (numbered ds' ++ t)) t

/-- A text starts with the code points of a string and its quote, and goes on with `rest`. -/
inductive Quoted : Text → Text → Text → Prop
  | nil {rest : Text} : Quoted [] (.quote :: rest) rest
  | cons {c : CodePoint} {t s s' rest : Text} : Spells c s s' → Quoted t s' rest →
      Quoted (c :: t) s rest

/-! ## How values and members are written -/

inductive Blanks : Text → Text → Prop
  | nil {rest : Text} : Blanks rest rest
  | cons {c : CodePoint} {t rest : Text} : isBlank c = true → Blanks t rest → Blanks (c :: t) rest

/-- A text starts with the value of a setting and goes on with `rest`. -/
inductive Forms : Value → Text → Text → Prop
  | string {t s rest : Text} : Quoted t s rest → Forms (.string t) (.quote :: s) rest
  | natural {n : Nat} {rest : Text} : 0 < n → (Text.decimal n).length ≤ Text.digitLimit →
      Forms (.int n) (Text.decimal n ++ rest) rest
  | switch {b : Bool} {rest : Text} :
      Forms (.bool b) (Text.ofString (if b then "true" else "false") ++ rest) rest

/-- A text starts with a member and the blanks behind it, and goes on with `rest`. -/
inductive Member (m : Text × Value) : Text → Text → Prop
  | mk {key after colon form blanks rest : Text} : Quoted m.1 key after →
      Blanks after (.colon :: colon) → Blanks colon form → Forms m.2 form blanks →
      Blanks blanks rest → Member m (.quote :: key) rest

/-- A text starts with members and the brace behind them, and goes on with `rest`. -/
inductive Listed : Members → Text → Text → Prop
  | last {m : Text × Value} {t rest : Text} : Member m t (.braceEnd :: rest) → Listed [m] t rest
  | cons {m : Text × Value} {ms : Members} {t comma next rest : Text} :
      Member m t (.comma :: comma) → Blanks comma next → Listed ms next rest →
      Listed (m :: ms) t rest

/-- A text is an object with these members, and blanks around it. -/
inductive Document (ms : Members) : Text → Prop
  | mk {t body first blanks : Text} : Blanks t (.brace :: body) → Blanks body first →
      Listed ms first blanks → Blanks blanks [] → Document ms t

/-! ## Hexadecimal digits -/

theorem val_lowered (c : CodePoint) : c.lowered.val =
    if 0x41 ≤ c.val ∧ c.val ≤ 0x5A then c.val + 0x20 else c.val := by
  have hcapital : (0x41 ≤ c && c ≤ 0x5A) = decide (0x41 ≤ c.val ∧ c.val ≤ 0x5A) := by
    rw [Bool.decide_and]
    rfl
  rw [CodePoint.lowered, hcapital]
  by_cases h : 0x41 ≤ c.val ∧ c.val ≤ 0x5A
  · rw [if_pos (decide_eq_true h), if_pos h]
    exact Nat.mod_eq_of_lt (show c.val + 0x20 < 0x110000 by omega)
  · rw [if_neg (by simpa using h), if_neg h]

theorem val_digitChar {k : Nat} (hk : k < 0x10) :
    (CodePoint.ofChar k.digitChar).val = if k < 10 then 0x30 + k else 0x57 + k := by
  have hall : ∀ k : Fin 0x10, (CodePoint.ofChar k.val.digitChar).val =
      if k.val < 10 then 0x30 + k.val else 0x57 + k.val := by decide
  exact hall ⟨k, hk⟩

theorem hexDigit?_eq (c : CodePoint) : hexDigit? c =
    if 0x30 ≤ c.val ∧ c.val ≤ 0x39 then some (c.val - 0x30)
    else if 0x41 ≤ c.val ∧ c.val ≤ 0x46 then some (c.val - 0x37)
    else if 0x61 ≤ c.val ∧ c.val ≤ 0x66 then some (c.val - 0x57)
    else none := rfl

theorem hexDigit?_of_lowered {c : CodePoint} {k : Nat} (hk : k < 0x10)
    (h : c.lowered = .ofChar k.digitChar) : hexDigit? c = some k := by
  have hval := congrArg Fin.val h
  rw [val_lowered, val_digitChar hk] at hval
  rw [hexDigit?_eq]
  grind

variable {c : CodePoint} {n : Nat} {ds t s rest : Text}

theorem HexFour.exists_digits (h : HexFour n ds) : ∃ a b c d, ds = [a, b, c, d] ∧
    hexDigit? a = some (n / 0x1000) ∧ hexDigit? b = some (n / 0x100 % 0x10) ∧
    hexDigit? c = some (n / 0x10 % 0x10) ∧ hexDigit? d = some (n % 0x10) := by
  obtain ⟨hlt, h⟩ := h
  obtain ⟨a, ds, rfl, ha, h⟩ := List.map_eq_cons_iff.mp h
  obtain ⟨b, ds, rfl, hb, h⟩ := List.map_eq_cons_iff.mp h
  obtain ⟨c, ds, rfl, hc, h⟩ := List.map_eq_cons_iff.mp h
  obtain ⟨d, ds, rfl, hd, h⟩ := List.map_eq_cons_iff.mp h
  obtain rfl := List.map_eq_nil_iff.mp h
  exact ⟨a, b, c, d, rfl, hexDigit?_of_lowered (by omega) ha, hexDigit?_of_lowered (by omega) hb,
    hexDigit?_of_lowered (by omega) hc, hexDigit?_of_lowered (by omega) hd⟩

theorem HexFour.hexFour? (h : HexFour n ds) (ht : t ≠ []) : hexFour? (ds ++ t) = some (n, t) := by
  obtain ⟨a, b, c, d, rfl, ha, hb, hc, hd⟩ := h.exists_digits
  obtain ⟨next, t, rfl⟩ := List.exists_cons_of_ne_nil ht
  have hn : 0x1000 * (n / 0x1000) + 0x100 * (n / 0x100 % 0x10) + 0x10 * (n / 0x10 % 0x10) +
      n % 0x10 = n := by omega
  show Json.hexFour? (a :: b :: c :: d :: next :: t) = _
  rw [Json.hexFour?, ha, hb, hc, hd]
  dsimp only
  rw [hn]

theorem join_of_not_high (hc : ¬ IsHigh c.val) : join c.val t = (c, t) := by
  rw [join, if_neg (show ¬ (0xD800 ≤ c.val ∧ c.val ≤ 0xDBFF) from hc)]
  dsimp only
  rw [Fin.ofNat_val_eq_self]

theorem lowSurrogate?_numbered (h : HexFour n ds) (hn : IsLow n) (ht : t ≠ []) :
    lowSurrogate? (numbered ds ++ t) = some (n, t) := by
  show lowSurrogate? (.backslash :: .ofChar 'u' :: (ds ++ t)) = _
  rw [lowSurrogate?, if_pos ⟨rfl, rfl⟩, h.hexFour? ht]
  exact if_pos hn

theorem join_of_pair {m : Nat} (hn : IsHigh n) (h : HexFour m ds) (hm : IsLow m) (ht : t ≠ [])
    (hc : c.val = 0x10000 + 0x400 * (n - 0xD800) + (m - 0xDC00)) :
    join n (numbered ds ++ t) = (c, t) := by
  rw [join, if_pos (show 0xD800 ≤ n ∧ n ≤ 0xDBFF from hn), lowSurrogate?_numbered h hm ht]
  dsimp only
  rw [← hc, Fin.ofNat_val_eq_self]

/-! ## Strings -/

/-- A reader takes something off the front of a text, and leaves `rest`. -/
def Takes {α : Type} {t : Text} (x : Read α t) (a : α) (rest : Text) : Prop :=
  ∃ h, x = .ok ⟨(a, rest), h⟩

theorem Quoted.ne_nil (h : Quoted t s rest) : s ≠ [] := by
  cases h with
  | nil => nofun
  | cons hc => cases hc <;> nofun

variable {acc u : Text}

theorem takes_numbered (h : HexFour n ds) (ht : t ≠ []) (hj : join n t = (c, s))
    (hs : Takes (stringOnto (c :: acc) s) u rest) :
    Takes (stringOnto acc (numbered ds ++ t)) u rest := by
  have hhex := h.hexFour? ht
  have hs : Takes (stringOnto ((join n t).1 :: acc) (join n t).2) u rest := by rwa [hj]
  obtain ⟨hlen, hs⟩ := hs
  show Takes (stringOnto acc (.backslash :: .ofChar 'u' :: (ds ++ t))) u rest
  rw [stringOnto.eq_def]
  dsimp only
  rw [if_neg (by decide), if_pos rfl, if_pos rfl]
  split
  · rename_i hnone
    cases hnone.symm.trans hhex
  · rename_i n' t' hsome
    cases hsome.symm.trans hhex
    rw [hs]
    exact ⟨_, rfl⟩

theorem takes_escaped {e : CodePoint} (hu : e ≠ .ofChar 'u') (he : escaped? e = some c)
    (hs : Takes (stringOnto (c :: acc) t) u rest) :
    Takes (stringOnto acc (.backslash :: e :: t)) u rest := by
  obtain ⟨hlen, hs⟩ := hs
  rw [stringOnto.eq_def]
  dsimp only
  rw [if_neg (by decide), if_pos rfl, if_neg hu, he]
  dsimp only
  rw [hs]
  exact ⟨_, rfl⟩

theorem takes_spelled (h : Spells c s t) (ht : t ≠ [])
    (hs : Takes (stringOnto (c :: acc) t) u rest) : Takes (stringOnto acc s) u rest := by
  cases h with
  | raw hcontrol hquote hbackslash =>
    obtain ⟨hlen, hs⟩ := hs
    rw [stringOnto.eq_def]
    dsimp only
    rw [if_neg hquote, if_neg hbackslash, if_neg hcontrol, hs]
    exact ⟨_, rfl⟩
  | mark hmark =>
    refine takes_escaped ?_ (if_pos hmark) hs
    rcases hmark with rfl | rfl | rfl <;> decide
  | @control letter t hletter =>
    have hall : ∀ entry ∈ controls, CodePoint.ofChar entry.1 ≠ .ofChar 'u' ∧
        escaped? (.ofChar entry.1) = some entry.2 := by decide
    obtain ⟨hu, he⟩ := hall _ hletter
    exact takes_escaped hu he hs
  | number hds hc => exact takes_numbered hds ht (join_of_not_high hc) hs
  | pair hds hds' hn hm hc => exact takes_numbered hds nofun (join_of_pair hn hds' hm ht hc) hs

/-- **Whatever way a string is written, it is read.** -/
theorem Quoted.takes (h : Quoted t s rest) (acc : Text) :
    Takes (stringOnto acc s) (acc.reverse ++ t) rest := by
  induction h generalizing acc with
  | nil =>
    rw [stringOnto.eq_def]
    dsimp only
    rw [if_pos rfl, List.append_nil]
    exact ⟨_, rfl⟩
  | @cons c t s s' rest hc h ih =>
    have htail := ih (c :: acc)
    rw [List.reverse_cons, List.append_assoc] at htail
    exact takes_spelled hc h.ne_nil htail

theorem Quoted.string (h : Quoted t s rest) : Takes (string s) t rest := by
  obtain ⟨hlen, hs⟩ := h.takes []
  rw [Json.string, hs]
  exact ⟨_, rfl⟩

/-! ## Blanks and delimiters -/

theorem Blanks.skip (h : Blanks t rest) (hrest : ∀ c ∈ rest.head?, isBlank c = false) :
    skip t = rest := by
  induction h with
  | nil =>
    rename_i rest
    cases rest with
    | nil => rfl
    | cons c rest => exact List.dropWhile_cons_of_neg (by simp [hrest c rfl])
  | cons hc h ih => exact (List.dropWhile_cons_of_pos hc).trans (ih hrest)

theorem Blanks.skip_cons (h : Blanks t (c :: rest)) (hc : isBlank c = false) :
    Json.skip t = c :: rest := h.skip (by rintro _ ⟨⟩; exact hc)

theorem Blanks.delimiter (h : Blanks t (c :: rest)) (hc : isBlank c = false) (cause : Cause) :
    Takes (delimiter c cause t) () rest := by
  have hskip := h.skip_cons hc
  unfold Json.delimiter
  split
  · rename_i d rest' hsome
    cases hsome.symm.trans hskip
    rw [if_pos rfl]
    exact ⟨_, rfl⟩
  · rename_i hnone
    cases hnone.symm.trans hskip

theorem Blanks.delimiter_of_ne {d : CodePoint} (h : Blanks t (c :: rest)) (hc : isBlank c = false)
    (hd : c ≠ d) (cause : Cause) : ∃ e, Json.delimiter d cause t = .error e := by
  have hskip := h.skip_cons hc
  unfold Json.delimiter
  split
  · rename_i c' rest' hsome
    cases hsome.symm.trans hskip
    rw [if_neg hd]
    exact ⟨_, rfl⟩
  · rename_i hnone
    cases hnone.symm.trans hskip

/-! ## Values -/

/-- What ends a value among the members of an object. -/
def Ending (c : CodePoint) : Prop := isBlank c = true ∨ c = .comma ∨ c = .braceEnd

theorem Ending.eq (h : Ending c) : c = .space ∨ c = .tab ∨ c = .lineFeed ∨ c = .carriageReturn ∨
    c = .comma ∨ c = .braceEnd := by
  simpa [Ending, isBlank, or_assoc] using h

/-- No numeral goes on with what ends a value. -/
theorem Ending.no_numeral (h : Ending c) : c.isDigit = false ∧ c ≠ .dot ∧ c ≠ .ofChar 'e' ∧
    c ≠ .ofChar 'E' := by
  rcases h.eq with rfl | rfl | rfl | rfl | rfl | rfl <;> decide

theorem digits_append (hds : ds.IsNumeral) (h : Ending c) :
    digits (ds ++ c :: rest) = (ds, c :: rest) := by
  have hc : ¬ c.isDigit = true := by simp [h.no_numeral.1]
  rw [digits, List.takeWhile_append_of_pos hds.isDigit, List.dropWhile_append_of_pos hds.isDigit,
    List.takeWhile_cons_of_neg hc, List.dropWhile_cons_of_neg hc, List.append_nil]

theorem whole_append (hds : ds.IsNumeral) (hzero : ds.head? ≠ some .zero) (h : Ending c) :
    whole (ds ++ c :: rest) = (ds, c :: rest) := by
  rw [← digits_append hds h]
  obtain ⟨d, ds, rfl⟩ := List.exists_cons_of_ne_nil hds.ne_nil
  exact if_neg fun hd => hzero (congrArg some hd)

theorem takeNumeral_append (hds : ds.IsNumeral) (hzero : ds.head? ≠ some .zero) (h : Ending c)
    (rest : Text) : takeNumeral (ds ++ c :: rest) = (⟨false, ds, [], none⟩, c :: rest) := by
  obtain ⟨-, hdot, he, hE⟩ := h.no_numeral
  have hhead : (ds ++ c :: rest).head? ≠ some .hyphen := by
    obtain ⟨d, ds, rfl⟩ := List.exists_cons_of_ne_nil hds.ne_nil
    exact hds.head?_ne (by decide)
  have hfraction : fraction (c :: rest) = ([], c :: rest) := if_neg fun h => hdot h.1
  have hexponent : exponent (c :: rest) = (none, c :: rest) := by
    rw [exponent]
    exact if_neg fun h => h.1.elim he hE
  rw [takeNumeral]
  simp only [hhead, decide_false, if_false, whole_append hds hzero h,
    hfraction, hexponent]

theorem takes_numeral (hds : ds.IsNumeral) (hzero : ds.head? ≠ some .zero)
    (hlength : ds.length ≤ Text.digitLimit) (h : Ending c) (rest : Text) :
    Takes (numeral (ds ++ c :: rest)) (.int (Text.digitsValue ds)) (c :: rest) := by
  have htake := takeNumeral_append hds hzero h rest
  unfold numeral
  split
  rename_i n rest' hn
  obtain ⟨rfl, rfl⟩ := Prod.mk.inj (hn.symm.trans htake)
  have hvalue : Numeral.value ⟨false, ds, [], none⟩ = .ok (.int (Text.digitsValue ds)) := by
    rw [Numeral.value]
    exact if_neg (Nat.not_lt.mpr hlength)
  rw [dif_neg hds.ne_nil, hvalue]
  exact ⟨_, rfl⟩

/-- No word that is a value starts with a digit. -/
theorem literal?_numeral (hds : ds.IsNumeral) : literal? (ds ++ t) = none := by
  obtain ⟨d, ds, rfl⟩ := List.exists_cons_of_ne_nil hds.ne_nil
  have hall : ∀ entry ∈ literals,
      ((Text.ofString entry.1).head?.any fun c => !c.isDigit) = true := List.all_eq_true.mp rfl
  refine List.findSome?_eq_none_iff.mpr ?_
  intro entry hentry
  refine if_neg ?_
  intro hword
  obtain ⟨u, hu⟩ := List.isPrefixOf_iff_prefix.mp hword
  have hfirst := hall entry hentry
  cases hw : Text.ofString entry.1 with
  | nil =>
    rw [hw] at hfirst
    cases hfirst
  | cons c w =>
    rw [hw] at hfirst hu
    obtain ⟨rfl, -⟩ := List.cons.inj hu
    simp [hds.isDigit c (.head _)] at hfirst

theorem takes_scalar_numeral (hds : ds.IsNumeral) (hzero : ds.head? ≠ some .zero)
    (hlength : ds.length ≤ Text.digitLimit) (h : Ending c) (rest : Text) :
    Takes (scalar (ds ++ c :: rest)) (.int (Text.digitsValue ds)) (c :: rest) := by
  have hnone : literal? (ds ++ c :: rest) = none := literal?_numeral hds
  unfold scalar
  split
  · rename_i hsome
    cases hsome.symm.trans hnone
  · exact takes_numeral hds hzero hlength h rest

theorem takes_scalar_switch (b : Bool) (rest : Text) :
    Takes (scalar (Text.ofString (if b then "true" else "false") ++ rest)) (.bool b) rest := by
  have hword : literal? (Text.ofString (if b then "true" else "false") ++ rest) =
      some (.bool b, rest) := by cases b <;> rfl
  unfold scalar
  split
  · rename_i hsome
    cases hsome.symm.trans hword
    exact ⟨_, rfl⟩
  · rename_i hnone
    cases hnone.symm.trans hword

variable {v : Value}

theorem value_eq_scalar {d : CodePoint} (hquote : d ≠ .quote) (hbracket : d ≠ .bracket)
    (hbrace : d ≠ .brace) (room : Nat) (t : Text) : value room (d :: t) = scalar (d :: t) := by
  rw [value.eq_def]
  dsimp only
  rw [if_neg hquote, if_neg hbracket, if_neg hbrace]

/-- **Whatever way a value is written, it is read.** -/
theorem Forms.value (h : Forms v s rest) (hrest : ∃ c t, rest = c :: t ∧ Ending c) (room : Nat) :
    Takes (value room s) v rest := by
  obtain ⟨c, t, rfl, hc⟩ := hrest
  cases h with
  | string hs =>
    obtain ⟨hlen, hs⟩ := hs.string
    rw [value.eq_def]
    dsimp only
    rw [if_pos rfl, hs]
    exact ⟨_, rfl⟩
  | @natural n rest hn hlength =>
    have hds := Text.isNumeral_decimal n
    have hscalar := takes_scalar_numeral hds (Text.head?_decimal hn) hlength hc t
    rw [Text.digitsValue_decimal] at hscalar
    obtain ⟨d, ds, hd⟩ := List.exists_cons_of_ne_nil hds.ne_nil
    have hne : ∀ {e : CodePoint}, e.isDigit = false → d ≠ e := by
      rintro e he rfl
      exact hds.notMem he (hd ▸ .head _)
    rw [hd, List.cons_append] at hscalar ⊢
    rwa [value_eq_scalar (hne (by decide)) (hne (by decide)) (hne (by decide))]
  | @switch b =>
    have hscalar := takes_scalar_switch b (c :: t)
    have heq : Json.value room (Text.ofString (if b then "true" else "false") ++ c :: t) =
        scalar (Text.ofString (if b then "true" else "false") ++ c :: t) := by
      cases b with
      | false =>
        exact value_eq_scalar (d := .ofChar 'f') (by decide) (by decide) (by decide) room _
      | true =>
        exact value_eq_scalar (d := .ofChar 't') (by decide) (by decide) (by decide) room _
    rwa [heq]

theorem isBlank_of_isDigit (h : c.isDigit = true) : isBlank c = false := by
  rw [CodePoint.isDigit_iff] at h
  simp only [isBlank, Bool.or_eq_false_iff, decide_eq_false_iff_not]
  refine ⟨⟨⟨?_, ?_⟩, ?_⟩, ?_⟩ <;> rintro rfl <;> revert h <;> decide

theorem Forms.starts (h : Forms v s rest) : ∃ c t, s = c :: t ∧ isBlank c = false := by
  cases h with
  | string => exact ⟨_, _, rfl, by decide⟩
  | @natural n =>
    obtain ⟨d, ds, hd⟩ := List.exists_cons_of_ne_nil (Text.isNumeral_decimal n).ne_nil
    have hdigit : d.isDigit = true := (Text.isNumeral_decimal n).isDigit d (hd ▸ .head _)
    exact ⟨d, ds ++ rest, by rw [hd]; rfl, isBlank_of_isDigit hdigit⟩
  | @switch b =>
    cases b with
    | false => exact ⟨.ofChar 'f', _, rfl, by decide⟩
    | true => exact ⟨.ofChar 't', _, rfl, by decide⟩

/-! ## Members -/

theorem Blanks.starts (h : Blanks t (c :: rest)) :
    ∃ d u, t = d :: u ∧ (isBlank d = true ∨ d = c) := by
  cases h with
  | nil => exact ⟨c, rest, rfl, .inr rfl⟩
  | cons hd => exact ⟨_, _, rfl, .inl hd⟩

theorem Blanks.ending (h : Blanks t (c :: rest)) (hc : Ending c) :
    ∃ d u, t = d :: u ∧ Ending d := by
  obtain ⟨d, u, rfl, hd⟩ := h.starts
  exact ⟨d, u, rfl, hd.elim .inl fun hd => hd ▸ hc⟩

variable {m : Text × Value} {ms : Members}

theorem Member.starts (h : Member m t rest) : ∃ key, t = .quote :: key := by
  cases h
  exact ⟨_, rfl⟩

theorem Listed.starts (h : Listed ms t rest) : ∃ key, t = .quote :: key := by
  cases h with
  | last hm | cons hm => exact hm.starts

theorem Member.parts (h : Member m t (c :: rest)) (hc : Ending c) (room : Nat) :
    ∃ key after colon blanks, Takes (delimiter .quote .propertyName t) () key ∧
      Takes (Json.string key) m.1 after ∧ Takes (delimiter .colon .colon after) () colon ∧
      Takes (value room (skip colon)) m.2 blanks ∧ Blanks blanks (c :: rest) := by
  cases h with
  | @mk key after colon form blanks _ hkey hcolon hform hvalue hend =>
    obtain ⟨d, u, rfl, hblank⟩ := hvalue.starts
    have hskip : skip colon = d :: u := hform.skip_cons hblank
    have hquote : Blanks (.quote :: key) (.quote :: key) := .nil
    refine ⟨key, after, colon, blanks, hquote.delimiter (by decide) _, hkey.string,
      hcolon.delimiter (by decide) _, ?_, hend⟩
    rw [hskip]
    exact hvalue.value (hend.ending hc) room

theorem Member.takes_last (h : Member m t (.braceEnd :: rest)) (room : Nat) :
    Takes (membersFrom room t) [m] rest := by
  obtain ⟨key, after, colon, blanks, ⟨_, hquote⟩, ⟨_, hkey⟩, ⟨_, hcolon⟩, ⟨_, hvalue⟩, hend⟩ :=
    h.parts (.inr (.inr rfl)) room
  obtain ⟨_, hbrace⟩ := hend.delimiter (by decide) .comma
  rw [membersFrom.eq_def]
  simp only [hquote, hkey, hcolon, hvalue, hbrace, bind, Except.bind]
  exact ⟨_, rfl⟩

theorem Member.takes_cons {comma : Text} (h : Member m t (.comma :: comma)) (room : Nat)
    (hms : Takes (membersFrom room (skip comma)) ms rest) :
    Takes (membersFrom room t) (m :: ms) rest := by
  obtain ⟨key, after, colon, blanks, ⟨_, hquote⟩, ⟨_, hkey⟩, ⟨_, hcolon⟩, ⟨_, hvalue⟩, hend⟩ :=
    h.parts (.inr (.inl rfl)) room
  obtain ⟨e, hbrace⟩ := hend.delimiter_of_ne (d := .braceEnd) (by decide) (by decide) .comma
  obtain ⟨_, hcomma⟩ := hend.delimiter (by decide) .comma
  obtain ⟨_, hms⟩ := hms
  rw [membersFrom.eq_def]
  simp only [hquote, hkey, hcolon, hvalue, hbrace, hcomma, hms, bind, Except.bind]
  exact ⟨_, rfl⟩

/-- **Whatever way members are written, they are read.** -/
theorem Listed.takes (h : Listed ms t rest) (room : Nat) :
    Takes (membersFrom room t) ms rest := by
  induction h with
  | last hm => exact hm.takes_last room
  | cons hm hblanks h ih =>
    obtain ⟨key, rfl⟩ := h.starts
    refine hm.takes_cons room ?_
    rwa [hblanks.skip_cons (by decide)]

theorem takes_members (hblanks : Blanks t s) (h : Listed ms s rest) (room : Nat) :
    Takes (members room t) ms rest := by
  obtain ⟨key, rfl⟩ := h.starts
  obtain ⟨e, hbrace⟩ :=
    hblanks.delimiter_of_ne (d := .braceEnd) (by decide) (by decide) .propertyName
  have hms := h.takes room
  rw [← hblanks.skip_cons (by decide)] at hms
  obtain ⟨_, hms⟩ := hms
  rw [members.eq_def]
  simp only [hbrace, hms, bind, Except.bind]
  exact ⟨_, rfl⟩

/-! ## Documents -/

theorem takes_object {room : Nat} (h : Takes (members room t) ms rest) :
    Takes (value (room + 1) (.brace :: t)) (.object (Members.putAll [] ms)) rest := by
  obtain ⟨_, hms⟩ := h
  rw [value.eq_def]
  dsimp only
  rw [if_neg (by decide), if_neg (by decide), if_pos rfl, hms]
  exact ⟨_, rfl⟩

/-- A byte order mark is no blank, nor does it open an object. -/
theorem Blanks.head?_ne (h : Blanks t (.brace :: rest)) : t.head? ≠ some 0xFEFF := by
  obtain ⟨d, u, rfl, hd⟩ := h.starts
  have hd : d = .space ∨ d = .tab ∨ d = .lineFeed ∨ d = .carriageReturn ∨ d = .brace := by
    simpa [isBlank, or_assoc] using hd
  have hne : d ≠ 0xFEFF := by rcases hd with rfl | rfl | rfl | rfl | rfl <;> decide
  exact fun h => hne (Option.some.inj h)

/-- **Whatever way an object is written, it is read.** -/
theorem Document.ofText (h : Document ms t) (room : Nat) :
    Value.ofText t room = .ok (.object (Members.putAll [] ms)) := by
  cases h with
  | mk hopen hfirst hms hend =>
    have hvalue := takes_object (takes_members hfirst hms room)
    rw [← hopen.skip_cons (by decide)] at hvalue
    obtain ⟨_, hvalue⟩ := hvalue
    have hdocument : document room t = .ok (.object (Members.putAll [] ms)) := by
      rw [document, if_neg hopen.head?_ne]
      change (Json.value (room + 1) (skip t) >>= _) = _
      rw [hvalue]
      simp only [bind, Except.bind, hend.skip nofun]
      rfl
    rw [Value.ofText, hdocument]
    rfl

theorem Document.written (h : Document ms t) (room : Nat) : written room t = ms := by
  cases h with
  | mk hopen hfirst hms hend =>
    obtain ⟨_, hmembers⟩ := takes_members hfirst hms room
    rw [Json.written, hopen.skip_cons (by decide)]
    dsimp only
    rw [hmembers]

/-! ## Line ends -/

def Plain (c : CodePoint) : Prop := 0x20 ≤ c.val ∧ c.isSurrogate = false

instance (c : CodePoint) : Decidable (Plain c) :=
  inferInstanceAs (Decidable (_ ∧ _))

theorem Plain.of_lt (h : 0x20 ≤ c.val) (h' : c.val < 0xD800) : Plain c := by
  refine ⟨h, ?_⟩
  rw [Bool.eq_false_iff, Ne, CodePoint.isSurrogate_iff]
  omega

theorem forall_plain {p : Text} (h : p.all (fun c => decide (Plain c)) = true) :
    ∀ c ∈ p, Plain c := fun c hc => of_decide_eq_true (List.all_eq_true.mp h c hc)

/-- The line ends of a text as line feeds.  A line feed `behind` a carriage return belongs to it. -/
def linesFrom (behind : Bool) : Text → Text
  | [] => []
  | c :: t =>
    if c = .carriageReturn then .lineFeed :: linesFrom true t
    else if c = .lineFeed && behind then linesFrom false t
    else c :: linesFrom false t

theorem unixLines_eq (t : Text) : Config.unixLines t = linesFrom false t := by
  unfold Config.unixLines
  dsimp only
  generalize hstep : (fun (done : Text × Bool) (c : CodePoint) => _) = step
  have hfold : ∀ (t done : Text) (behind : Bool),
      (t.foldl step (done, behind)).1.reverse = done.reverse ++ linesFrom behind t := by
    intro t
    induction t with
    | nil => exact fun done behind => (List.append_nil _).symm
    | cons c t ih =>
      intro done behind
      rw [List.foldl_cons, ← hstep]
      dsimp only
      rw [hstep, linesFrom]
      split
      · rw [ih, List.reverse_cons, List.append_assoc]
        rfl
      split
      · rw [ih]
      · rw [ih, List.reverse_cons, List.append_assoc]
        rfl
  exact hfold t [] false

theorem linesFrom_cons (hc : Plain c) (behind : Bool) (t : Text) :
    linesFrom behind (c :: t) = c :: linesFrom false t := by
  have hreturn : c ≠ .carriageReturn := by
    rintro rfl
    exact absurd hc (by decide)
  have hfeed : c ≠ .lineFeed := by
    rintro rfl
    exact absurd hc (by decide)
  rw [linesFrom, if_neg hreturn, if_neg (by simp [hfeed])]

theorem linesFrom_append {p : Text} (hp : p ≠ []) (hplain : ∀ c ∈ p, Plain c) (behind : Bool)
    (t : Text) : linesFrom behind (p ++ t) = p ++ linesFrom false t := by
  induction p generalizing behind with
  | nil => exact absurd rfl hp
  | cons c p ih =>
    obtain ⟨hc, hplain⟩ := List.forall_mem_cons.mp hplain
    rw [List.cons_append, linesFrom_cons hc]
    cases p with
    | nil => rfl
    | cons d p => exact congrArg (c :: ·) (ih nofun hplain false)

/-- A text starts with something plain for which `P` holds whatever the text goes on with. -/
def Begins (P : Text → Text → Prop) (s t : Text) : Prop :=
  ∃ p, p ≠ [] ∧ (∀ c ∈ p, Plain c) ∧ s = p ++ t ∧ ∀ t', P (p ++ t') t'

theorem Begins.linesFrom {P : Text → Text → Prop} (h : Begins P s t) (behind : Bool) :
    P (linesFrom behind s) (linesFrom false t) := by
  obtain ⟨p, hp, hplain, rfl, hall⟩ := h
  rw [linesFrom_append hp hplain]
  exact hall _

theorem plain_of_hexDigit? {k : Nat} (h : hexDigit? c = some k) : Plain c := by
  have hrange : 0x30 ≤ c.val ∧ c.val ≤ 0x66 := by
    rw [hexDigit?_eq] at h
    grind
  exact .of_lt (by omega) (by omega)

theorem HexFour.plain (h : HexFour n ds) : ∀ c ∈ ds, Plain c := by
  obtain ⟨a, b, c, d, rfl, ha, hb, hc, hd⟩ := h.exists_digits
  simp only [List.forall_mem_cons]
  exact ⟨plain_of_hexDigit? ha, plain_of_hexDigit? hb, plain_of_hexDigit? hc,
    plain_of_hexDigit? hd, nofun⟩

theorem plain_numbered (h : HexFour n ds) : ∀ c ∈ numbered ds, Plain c := by
  refine List.forall_mem_cons.mpr ⟨by decide, List.forall_mem_cons.mpr ⟨by decide, h.plain⟩⟩

theorem Spells.begins (h : Spells c s t) : Begins (Spells c) s t := by
  cases h with
  | raw hcontrol hquote hbackslash hsurrogate =>
    refine ⟨[c], nofun, List.forall_mem_singleton.mpr ⟨Nat.not_lt.mp hcontrol, hsurrogate⟩, rfl, ?_⟩
    exact fun t' => .raw hcontrol hquote hbackslash hsurrogate
  | mark hmark =>
    refine ⟨[.backslash, c], nofun, ?_, rfl, fun t' => .mark hmark⟩
    rcases hmark with rfl | rfl | rfl <;> exact forall_plain rfl
  | @control letter _ hletter =>
    have hall : ∀ entry ∈ controls, Plain (.ofChar entry.1) := by decide
    refine ⟨[.backslash, .ofChar letter], nofun, ?_, rfl, fun t' => .control hletter⟩
    exact List.forall_mem_cons.mpr ⟨by decide, List.forall_mem_singleton.mpr (hall _ hletter)⟩
  | @number ds _ hds hc =>
    exact ⟨numbered ds, nofun, plain_numbered hds, rfl, fun t' => .number hds hc⟩
  | @pair _ _ ds ds' _ hds hds' hn hm hc =>
    refine ⟨numbered ds ++ numbered ds', nofun, ?_, (List.append_assoc ..).symm, ?_⟩
    · exact List.forall_mem_append.mpr ⟨plain_numbered hds, plain_numbered hds'⟩
    · intro t'
      rw [List.append_assoc]
      exact .pair hds hds' hn hm hc

theorem Quoted.begins (h : Quoted t s rest) : Begins (Quoted t) s rest := by
  induction h with
  | nil => exact ⟨[.quote], nofun, forall_plain rfl, rfl, fun _ => .nil⟩
  | cons hc h ih =>
    obtain ⟨p, hp, hplain, rfl, hall⟩ := hc.begins
    obtain ⟨q, hq, hplain', rfl, hall'⟩ := ih
    refine ⟨p ++ q, List.append_ne_nil_of_left_ne_nil hp _,
      List.forall_mem_append.mpr ⟨hplain, hplain'⟩, (List.append_assoc ..).symm, ?_⟩
    intro t'
    rw [List.append_assoc]
    exact .cons (hall _) (hall' _)

theorem Forms.begins (h : Forms v s rest) : Begins (Forms v) s rest := by
  cases h with
  | string hs =>
    obtain ⟨p, -, hplain, rfl, hall⟩ := hs.begins
    exact ⟨.quote :: p, nofun, List.forall_mem_cons.mpr ⟨by decide, hplain⟩, rfl,
      fun t' => .string (hall t')⟩
  | natural hn hlength =>
    refine ⟨_, (Text.isNumeral_decimal _).ne_nil, ?_, rfl, fun t' => .natural hn hlength⟩
    intro c hc
    have hdigit := CodePoint.isDigit_iff.mp (Text.isDigit_of_mem_decimal hc)
    exact Plain.of_lt (by omega) (by omega)
  | @switch b =>
    refine ⟨Text.ofString (if b then "true" else "false"), ?_, ?_, rfl, fun t' => .switch⟩
    · cases b <;> nofun
    · cases b <;> exact forall_plain rfl

theorem Blanks.linesFrom (h : Blanks t rest) (behind : Bool) :
    ∃ behind', Blanks (linesFrom behind t) (linesFrom behind' rest) := by
  induction h generalizing behind with
  | nil => exact ⟨behind, .nil⟩
  | cons hc h ih =>
    rw [Json.linesFrom]
    split
    · obtain ⟨behind', htail⟩ := ih true
      exact ⟨behind', .cons (by decide) htail⟩
    split
    · exact ih false
    · obtain ⟨behind', htail⟩ := ih false
      exact ⟨behind', .cons hc htail⟩

theorem Member.linesFrom (h : Member m t rest) (behind : Bool) :
    ∃ behind', Member m (linesFrom behind t) (linesFrom behind' rest) := by
  cases h with
  | mk hkey hcolon hform hvalue hend =>
    obtain ⟨_, hcolon⟩ := hcolon.linesFrom false
    obtain ⟨_, hform⟩ := hform.linesFrom false
    obtain ⟨behind', hend⟩ := hend.linesFrom false
    rw [linesFrom_cons (by decide)] at hcolon
    rw [linesFrom_cons (by decide)]
    exact ⟨behind', .mk (hkey.begins.linesFrom false) hcolon hform (hvalue.begins.linesFrom _) hend⟩

theorem Listed.linesFrom (h : Listed ms t rest) (behind : Bool) :
    Listed ms (linesFrom behind t) (linesFrom false rest) := by
  induction h generalizing behind with
  | last hm =>
    obtain ⟨_, hm⟩ := hm.linesFrom behind
    rw [linesFrom_cons (by decide)] at hm
    exact .last hm
  | cons hm hblanks h ih =>
    obtain ⟨_, hm⟩ := hm.linesFrom behind
    rw [linesFrom_cons (by decide)] at hm
    obtain ⟨_, hblanks⟩ := hblanks.linesFrom false
    exact .cons hm hblanks (ih _)

/-- **A document remains one when its line ends become line feeds.** -/
theorem Document.unixLines (h : Document ms t) : Document ms (Config.unixLines t) := by
  rw [unixLines_eq]
  cases h with
  | mk hopen hfirst hms hend =>
    obtain ⟨_, hopen⟩ := hopen.linesFrom false
    rw [linesFrom_cons (by decide)] at hopen
    obtain ⟨_, hfirst⟩ := hfirst.linesFrom false
    obtain ⟨_, hend⟩ := hend.linesFrom false
    exact .mk hopen hfirst (hms.linesFrom _) hend

/-! ## No surrogates -/

/-- There are no surrogates, so the text can be UTF-8. -/
def Sound (t : Text) : Prop := ∀ c ∈ t, c.isSurrogate = false

theorem Begins.sound {P : Text → Text → Prop} (h : Begins P s t) (ht : Sound t) : Sound s := by
  obtain ⟨p, -, hplain, rfl, -⟩ := h
  exact List.forall_mem_append.mpr ⟨fun c hc => (hplain c hc).2, ht⟩

theorem Sound.cons (hc : Plain c) (ht : Sound t) : Sound (c :: t) :=
  List.forall_mem_cons.mpr ⟨hc.2, ht⟩

theorem isSurrogate_of_isBlank (h : isBlank c = true) : c.isSurrogate = false := by
  have hc : c = .space ∨ c = .tab ∨ c = .lineFeed ∨ c = .carriageReturn := by
    simpa [isBlank, or_assoc] using h
  rcases hc with rfl | rfl | rfl | rfl <;> decide

theorem Blanks.sound (h : Blanks t rest) (hrest : Sound rest) : Sound t := by
  induction h with
  | nil => exact hrest
  | cons hc h ih => exact List.forall_mem_cons.mpr ⟨isSurrogate_of_isBlank hc, ih hrest⟩

theorem Member.sound (h : Member m t rest) (hrest : Sound rest) : Sound t := by
  cases h with
  | mk hkey hcolon hform hvalue hend =>
    have hcolons := hform.sound (hvalue.begins.sound (hend.sound hrest))
    exact .cons (by decide) (hkey.begins.sound (hcolon.sound (.cons (by decide) hcolons)))

theorem Listed.sound (h : Listed ms t rest) (hrest : Sound rest) : Sound t := by
  induction h with
  | last hm => exact hm.sound (.cons (by decide) hrest)
  | cons hm hblanks h ih => exact hm.sound (.cons (by decide) (hblanks.sound (ih hrest)))

theorem Document.sound (h : Document ms t) : Sound t := by
  cases h with
  | mk hopen hfirst hms hend =>
    exact hopen.sound (.cons (by decide) (hfirst.sound (hms.sound (hend.sound nofun))))

/-! ## Everything can be written -/

theorem exists_hexFour (hn : n < 0x10000) : ∃ ds, HexFour n ds := by
  have hall : ∀ k : Fin 0x10, CodePoint.lowered (.ofChar k.val.digitChar) =
      .ofChar k.val.digitChar := by decide
  refine ⟨[n / 0x1000, n / 0x100 % 0x10, n / 0x10 % 0x10, n % 0x10].map fun d =>
    .ofChar d.digitChar, hn, ?_⟩
  rw [List.map_map]
  refine List.map_congr_left ?_
  intro k hk
  have hlt : k < 0x10 := by
    simp only [List.mem_cons, List.not_mem_nil, or_false] at hk
    omega
  exact hall ⟨k, hlt⟩

theorem exists_spells (hc : ¬ IsHigh c.val) (t : Text) : ∃ s, Spells c s t := by
  by_cases hraw : ¬ c < 0x20 ∧ c ≠ .quote ∧ c ≠ .backslash ∧ c.isSurrogate = false
  · exact ⟨_, .raw hraw.1 hraw.2.1 hraw.2.2.1 hraw.2.2.2⟩
  · have hlt : c.val < 0x10000 := by
      by_contra hlarge
      refine hraw ⟨fun h => ?_, fun h => hlarge (h ▸ by decide),
        fun h => hlarge (h ▸ by decide), ?_⟩
      · have hval : c.val < 0x20 := h
        omega
      · rw [Bool.eq_false_iff, Ne, CodePoint.isSurrogate_iff]
        omega
    obtain ⟨ds, hds⟩ := exists_hexFour hlt
    exact ⟨_, .number hds hc⟩

/-- Plain text that has neither a quote nor a backslash may stand as it is. -/
theorem Quoted.of_plain (ht : ∀ c ∈ t, Plain c ∧ c ≠ .quote ∧ c ≠ .backslash) (rest : Text) :
    Quoted t (t ++ .quote :: rest) rest := by
  induction t with
  | nil => exact .nil
  | cons c t ih =>
    obtain ⟨⟨⟨hcontrol, hsurrogate⟩, hquote, hbackslash⟩, ht⟩ := List.forall_mem_cons.mp ht
    exact .cons (.raw (Nat.not_lt.mpr hcontrol) hquote hbackslash hsurrogate) (ih ht)

/-- A text without high surrogates can be written as a string. -/
theorem exists_quoted (ht : ∀ c ∈ t, ¬ IsHigh c.val) (rest : Text) : ∃ s, Quoted t s rest := by
  induction t with
  | nil => exact ⟨_, .nil⟩
  | cons c t ih =>
    obtain ⟨hc, ht⟩ := List.forall_mem_cons.mp ht
    obtain ⟨s, hs⟩ := ih ht
    obtain ⟨s', hs'⟩ := exists_spells hc s
    exact ⟨s', .cons hs' hs⟩

theorem exists_document (hne : ms ≠ []) (hms : ∀ m ∈ ms, (∀ c ∈ m.1, ¬ IsHigh c.val) ∧
    ∀ rest, ∃ s, Forms m.2 s rest) : ∃ t, Document ms t := by
  have hmember : ∀ m ∈ ms, ∀ rest, ∃ t, Member m t rest := by
    intro m hm rest
    obtain ⟨hkey, hvalue⟩ := hms m hm
    obtain ⟨form, hform⟩ := hvalue rest
    obtain ⟨key, hkey⟩ := exists_quoted hkey (.colon :: form)
    exact ⟨_, .mk hkey .nil .nil hform .nil⟩
  have hlisted : ∀ rest, ∃ t, Listed ms t rest := by
    intro rest
    clear hms
    induction ms with
    | nil => exact absurd rfl hne
    | cons m ms ih =>
      obtain ⟨hm, hmember⟩ := List.forall_mem_cons.mp hmember
      cases ms with
      | nil =>
        obtain ⟨t, ht⟩ := hm (.braceEnd :: rest)
        exact ⟨t, .last ht⟩
      | cons m' ms =>
        obtain ⟨next, hnext⟩ := ih nofun hmember
        obtain ⟨t, ht⟩ := hm (.comma :: next)
        exact ⟨t, .cons ht .nil hnext⟩
  obtain ⟨t, ht⟩ := hlisted []
  exact ⟨_, .mk .nil .nil ht .nil⟩

end LineShell.Json
