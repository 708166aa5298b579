import LineShell.Options.Basic
import Mathlib.Data.List.Basic
import Mathlib.Data.List.TakeWhile

/-!
# Numbers written out and read back

A number that is written in decimal digits is read as the same number wherever numbers are read.

* `Text.IsNumeral`: decimal digits of ASCII, and at least one.
* `Text.digitsValue_decimal`: the digits of a number stand for it, so no two numbers are written
  alike (`Text.decimal_injective`).
* `Integer.ofText_decimal`: a positive number as the value of a setting.
* `Text.hyphenated`, `Options.integer?_hyphenated`: a numeral, perhaps behind a hyphen, as the value
  of an option.
-/

namespace LineShell

/-! ## Digits -/

namespace CodePoint

variable {c : CodePoint}

theorem isDigit_iff : c.isDigit = true ↔ 0x30 ≤ c.val ∧ c.val ≤ 0x39 := by
  rw [isDigit, Bool.and_eq_true, decide_eq_true_iff, decide_eq_true_iff, Fin.le_def, Fin.le_def]
  exact Iff.rfl

theorem isWhiteSpace_of_isDigit (h : c.isDigit = true) : c.isWhiteSpace = false := by
  rw [isDigit_iff] at h
  simp [isWhiteSpace, inRanges, whiteSpaceRanges]
  omega

theorem isSurrogate_of_isDigit (h : c.isDigit = true) : c.isSurrogate = false := by
  rw [isDigit_iff] at h
  simp [isSurrogate, Fin.le_def]
  omega

theorem decimal?_of_isDigit (h : c.isDigit = true) : c.decimal? = some c.digitValue := by
  rw [isDigit_iff] at h
  have hzero : zeros.find? (fun z => z ≤ c.val && c.val < z + 10) = some 0x30 :=
    List.find?_cons_of_pos (by simp; omega)
  rw [decimal?, hzero]
  rfl

end CodePoint

/-! ## Numerals -/

namespace Text

structure IsNumeral (t : Text) : Prop where
  ne_nil : t ≠ []
  isDigit : ∀ c ∈ t, c.isDigit = true

theorem isDigit_of_mem_decimal {c : CodePoint} {n : Nat} (h : c ∈ decimal n) :
    c.isDigit = true := by
  obtain ⟨d, hd, rfl⟩ := List.mem_map.mp h
  have hdigit := Nat.isDigit_of_mem_toDigits (by decide) (by decide) hd
  rw [Char.isDigit_iff_toNat] at hdigit
  rw [CodePoint.isDigit_iff]
  exact hdigit

theorem isNumeral_decimal (n : Nat) : (decimal n).IsNumeral :=
  ⟨fun h => Nat.toDigits_ne_nil (List.map_eq_nil_iff.mp h), fun _ => isDigit_of_mem_decimal⟩

/-- **The digits of a number stand for it.** -/
theorem digitsValue_decimal (n : Nat) : digitsValue (decimal n) = n := by
  have hvalue : digitsValue (decimal n) = Nat.ofDigitChars 10 (Nat.toDigits 10 n) 0 := by
    rw [digitsValue, decimal, List.foldl_map, Nat.ofDigitChars_eq_foldl]
    rfl
  rw [hvalue, Nat.ofDigitChars_ten_toDigits]

theorem decimal_injective : Function.Injective decimal :=
  Function.LeftInverse.injective digitsValue_decimal

/-- A positive number has no idle zero before it. -/
theorem head?_decimal {n : Nat} (hn : 0 < n) : (decimal n).head? ≠ some .zero := by
  induction n using Nat.strongRecOn with
  | ind n ih =>
    rw [decimal, Nat.toDigits_eq_if (by decide)]
    split
    · rename_i hlt
      have hdigit := Nat.toNat_digitChar_of_lt_ten hlt
      intro h
      have hval := congrArg Fin.val (Option.some.inj h)
      change n.digitChar.toNat = 48 at hval
      omega
    · obtain ⟨c, t, hc⟩ := List.exists_cons_of_ne_nil (isNumeral_decimal (n / 10)).ne_nil
      have hhead := ih (n / 10) (by omega) (by omega)
      rw [hc] at hhead
      rw [List.map_append, ← decimal, hc]
      exact hhead

theorem trim_eq_self {p : CodePoint → Bool} {t : Text} (hfirst : ∀ c ∈ t.head?, p c = false)
    (hlast : ∀ c ∈ t.getLast?, p c = false) : t.trim p = t := by
  have hdrop : ∀ u : Text, (∀ c ∈ u.head?, p c = false) → u.dropWhile p = u := by
    intro u hu
    cases u with
    | nil => rfl
    | cons c u => exact List.dropWhile_cons_of_neg (by simp [hu c rfl])
  rw [trim, hdrop t hfirst, hdrop t.reverse (by rwa [List.head?_reverse]), List.reverse_reverse]

namespace IsNumeral

variable {ds : Text}

theorem notMem (hds : ds.IsNumeral) {d : CodePoint} (hd : d.isDigit = false) : d ∉ ds := by
  intro h
  rw [hds.isDigit d h] at hd
  cases hd

theorem head?_ne (hds : ds.IsNumeral) {d : CodePoint} (hd : d.isDigit = false) :
    ds.head? ≠ some d := fun h => hds.notMem hd (List.mem_of_head? h)

theorem exists_cons (hds : ds.IsNumeral) : ∃ c t, ds = c :: t ∧ c ≠ .hyphen ∧ c ≠ .plus := by
  obtain ⟨c, t, rfl⟩ := List.exists_cons_of_ne_nil hds.ne_nil
  exact ⟨c, t, rfl, fun h => hds.head?_ne (by decide) (congrArg some h),
    fun h => hds.head?_ne (by decide) (congrArg some h)⟩

theorem trim (hds : ds.IsNumeral) : ds.trim CodePoint.isWhiteSpace = ds :=
  trim_eq_self
    (fun c hc => CodePoint.isWhiteSpace_of_isDigit (hds.isDigit c (List.mem_of_head? hc)))
    fun c hc => CodePoint.isWhiteSpace_of_isDigit (hds.isDigit c (List.mem_of_getLast? hc))

theorem all_isDigit (hds : ds.IsNumeral) : ds.all CodePoint.isDigit = true :=
  List.all_eq_true.mpr hds.isDigit

end IsNumeral

end Text

/-! ## The value of a setting -/

namespace Integer

variable {ds : Text}

theorem sign_numeral (hds : ds.IsNumeral) : sign ds = (false, ds) := by
  obtain ⟨c, t, rfl, hhyphen, hplus⟩ := hds.exists_cons
  simp [sign, hhyphen, hplus]

theorem unhyphen_numeral (hds : ds.IsNumeral) : unhyphen ds = (false, ds) := by
  obtain ⟨c, t, rfl, hhyphen, -⟩ := hds.exists_cons
  simp [unhyphen, hhyphen]

theorem stripped?_numeral (hds : ds.IsNumeral) (hzero : ds.head? ≠ some .zero) :
    stripped? ds = some ds := by
  have hdot : CodePoint.dot ∉ ds := hds.notMem (by decide)
  have hfraction : stripFraction ds = ds := by simp [stripFraction, Text.cut?, hdot]
  have hunderscore : CodePoint.underscore ∉ ds := hds.notMem (by decide)
  have hunderscores : stripUnderscores? ds = some ds := by
    have hfilter : ds.filter (· ≠ .underscore) = ds := by
      refine List.filter_eq_self.mpr fun c hc => ?_
      have hne : c ≠ .underscore := fun h => hunderscore (h ▸ hc)
      simp [hne]
    rw [stripUnderscores?, if_neg (by simp [hunderscore]), hfilter]
  rw [stripped?, hds.trim, sign_numeral hds]
  dsimp only
  rw [stripZeros, if_neg hzero, hfraction, hunderscores]
  rfl

theorem plain?_numeral (hds : ds.IsNumeral) (hzero : ds.head? ≠ some .zero)
    (hlength : ds.length ≤ Text.digitLimit) : plain? ds = some (Text.digitsValue ds : Int) := by
  rw [plain?, unhyphen_numeral hds]
  dsimp only
  rw [if_neg (by simp [hds.ne_nil, hds.all_isDigit, hzero]), if_neg (by omega)]
  rfl

/-- **Digits without an idle zero are read as their number**, unless there are too many. -/
theorem ofText_numeral (hds : ds.IsNumeral) (hzero : ds.head? ≠ some .zero)
    (hlength : ds.length ≤ Text.digitLimit) : ofText ds = .ok (Text.digitsValue ds) := by
  have hsurrogate : ds.any CodePoint.isSurrogate = false :=
    List.any_eq_false.mpr fun c hc => by simp [CodePoint.isSurrogate_of_isDigit (hds.isDigit c hc)]
  have hleading : leadingDigits ds = ds.length := by
    rw [leadingDigits, unhyphen_numeral hds]
    dsimp only
    rw [if_neg hzero, List.takeWhile_eq_self_iff.mpr hds.isDigit]
  rw [ofText, hsurrogate, if_neg Bool.false_ne_true, hleading, if_neg (by omega),
    stripped?_numeral hds hzero, Option.bind_some, plain?_numeral hds hzero hlength]

theorem ofText_decimal {n : Nat} (hn : 0 < n)
    (hlength : (Text.decimal n).length ≤ Text.digitLimit) : ofText (Text.decimal n) = .ok n := by
  rw [ofText_numeral (Text.isNumeral_decimal n) (Text.head?_decimal hn) hlength,
    Text.digitsValue_decimal]

end Integer

/-! ## The value of an option -/

def Text.hyphenated (negative : Bool) (t : Text) : Text := if negative then .hyphen :: t else t

namespace Options

variable {ds : Text}

theorem unsign_hyphenated (hds : ds.IsNumeral) (negative : Bool) :
    Text.unsign (Text.hyphenated negative ds) = (negative, ds) := by
  cases negative with
  | true => rfl
  | false =>
    obtain ⟨c, t, rfl, hhyphen, hplus⟩ := hds.exists_cons
    simp [Text.unsign, Text.hyphenated, hhyphen, hplus]

theorem trim_hyphenated (hds : ds.IsNumeral) (negative : Bool) :
    (Text.hyphenated negative ds).trim CodePoint.isWhiteSpace = Text.hyphenated negative ds := by
  cases negative with
  | false => exact hds.trim
  | true =>
    refine Text.trim_eq_self ?_ ?_
    · rintro c ⟨⟩
      decide
    · intro c hc
      rw [Text.hyphenated, if_pos rfl, List.getLast?_cons_of_ne_nil hds.ne_nil] at hc
      exact CodePoint.isWhiteSpace_of_isDigit (hds.isDigit c (List.mem_of_getLast? hc))

/-- **Digits are read as their number, and as its negative behind a hyphen**, unless there are too
many. -/
theorem integer?_hyphenated (hds : ds.IsNumeral) (hlength : ds.length ≤ Text.digitLimit)
    (negative : Bool) : integer? (Text.hyphenated negative ds) =
      some (Text.signed negative (Text.digitsValue ds)) := by
  have hpieces : Text.pieces .underscore ds = [ds] :=
    List.splitOn_eq_singleton (hds.notMem (by decide))
  have hdecimal : ds.all (·.decimal?.isSome) = true :=
    List.all_eq_true.mpr fun c hc => by rw [CodePoint.decimal?_of_isDigit (hds.isDigit c hc)]; rfl
  have hvalues : ds.filterMap CodePoint.decimal? = ds.map CodePoint.digitValue := by
    rw [← List.filterMap_eq_map]
    exact List.filterMap_congr fun c hc => CodePoint.decimal?_of_isDigit (hds.isDigit c hc)
  rw [integer?, trim_hyphenated hds, unsign_hyphenated hds]
  dsimp only
  rw [hpieces, List.flatten_singleton, hdecimal, hvalues, List.foldl_map,
    if_neg (by simp [hds.ne_nil]), if_neg (by omega)]
  rfl

end Options

end LineShell
