import LineShell.Json.Document

/-!
# Why a text is refused

A text may be malformed in many ways.  But that an integer is too long, or that values are nested
too deep, is said of no text in which there is no cause for it.

* `Json.openings`: how many arrays and objects a text can open.
* `Json.Refusal.Accounted`: what there is in a text that is refused.
* `Json.Leaves`: a reader leaves an end of its text, or its refusal is accounted for.
* `Json.leaves_value`: this holds of values, by induction on the length of the text.
* `Json.document_of_error`: so it holds of documents.
-/

namespace LineShell.Json

/-! ## Causes -/

def isOpening (c : CodePoint) : Bool := c = .bracket || c = .brace

def openings (t : Text) : Nat := t.countP isOpening

/-- What there is in a text that is refused, where values may be nested up to `room` deep. -/
inductive Refusal.Accounted (room : Nat) (t : Text) : Refusal → Prop
  | malformed (cause : Cause) (left : Nat) : Accounted room t (.malformed cause left)
  | tooManyDigits {ds : Text} : ds <:+: t → (∀ c ∈ ds, c.isDigit = true) →
      Text.digitLimit < ds.length → Accounted room t (.tooManyDigits ds.length)
  | tooDeep : room < openings t → Accounted room t .tooDeep

namespace Refusal.Accounted

variable {room : Nat} {s t : Text} {e : Refusal}

theorem of_suffix (h : Accounted room s e) (hs : s <:+ t) : Accounted room t e := by
  cases h with
  | malformed cause left => exact .malformed cause left
  | tooManyDigits hds hdigits hlong => exact .tooManyDigits (hds.trans hs.isInfix) hdigits hlong
  | tooDeep hroom => exact .tooDeep (Nat.lt_of_lt_of_le hroom (hs.sublist.countP_le))

/-- What is opened takes room, and counts. -/
theorem opened {c : CodePoint} (h : Accounted room t e) (hc : isOpening c = true) :
    Accounted (room + 1) (c :: t) e := by
  cases h with
  | malformed cause left => exact .malformed cause left
  | tooManyDigits hds hdigits hlong =>
    exact .tooManyDigits (hds.trans (List.suffix_cons c t).isInfix) hdigits hlong
  | tooDeep hroom =>
    refine .tooDeep ?_
    rw [openings, List.countP_cons_of_pos hc]
    exact Nat.succ_lt_succ hroom

end Refusal.Accounted

/-- Something is read for which `p` holds, or the refusal of the text is accounted for. -/
inductive Reads (room : Nat) (t : Text) (p : β → Prop) : Except Refusal β → Prop
  | ok {b : β} : p b → Reads room t p (.ok b)
  | error {e : Refusal} : e.Accounted room t → Reads room t p (.error e)

/-- A reader leaves an end of the text, or its refusal is accounted for. -/
def Leaves (room : Nat) (t : Text) (x : Read α t) : Prop := Reads room t (fun r => r.1.2 <:+ t) x

namespace Reads

variable {room : Nat} {s t : Text} {p : β → Prop} {q : γ → Prop}

theorem malformed (cause : Cause) (left : Nat) : Reads room t p (.error (.malformed cause left)) :=
  .error (.malformed cause left)

theorem bind {x : Except Refusal β} {f : β → Except Refusal γ} (hx : Reads room t p x)
    (hf : ∀ b, p b → Reads room t q (f b)) : Reads room t q (x >>= f) := by
  cases hx with
  | ok hb => exact hf _ hb
  | error he => exact .error he

end Reads

namespace Leaves

variable {room : Nat} {s t : Text} {q : β → Prop}

/-- What is read first leaves an end of the text for what is read then. -/
theorem bind {x : Read α s} {f : { r : α × Text // r.2.length < s.length } → Except Refusal β}
    (hx : Leaves room s x) (hs : s <:+ t) (hf : ∀ r, r.1.2 <:+ t → Reads room t q (f r)) :
    Reads room t q (x >>= f) := by
  cases hx with
  | ok hr => exact hf _ (hr.trans hs)
  | error he => exact .error (he.of_suffix hs)

theorem bind_opened {c : CodePoint} {x : Read α s}
    {f : { r : α × Text // r.2.length < s.length } → Except Refusal β} (hx : Leaves room s x)
    (hc : isOpening c = true) (hf : ∀ r, r.1.2 <:+ c :: s → Reads (room + 1) (c :: s) q (f r)) :
    Reads (room + 1) (c :: s) q (x >>= f) := by
  cases hx with
  | ok hr => exact hf _ (hr.trans (List.suffix_cons c s))
  | error he => exact .error (he.opened hc)

end Leaves

/-! ## Strings -/

variable {room : Nat} {t rest : Text}

theorem skip_suffix (t : Text) : skip t <:+ t := List.dropWhile_suffix _

theorem hexFour?_suffix {n : Nat} (h : hexFour? t = some (n, rest)) : rest <:+ t := by
  unfold hexFour? at h
  split at h
  · split at h
    · obtain ⟨-, rfl⟩ := Prod.mk.inj (Option.some.inj h)
      exact List.suffix_append [_, _, _, _] _
    · cases h
  · cases h

theorem lowSurrogate?_suffix {n : Nat} (h : lowSurrogate? t = some (n, rest)) : rest <:+ t := by
  unfold lowSurrogate? at h
  split at h
  · split at h
    · split at h
      · split at h
        · rename_i hhex _
          obtain ⟨-, rfl⟩ := Prod.mk.inj (Option.some.inj h)
          exact (hexFour?_suffix hhex).trans (List.suffix_append [_, _] _)
        · cases h
      · cases h
    · cases h
  · cases h

theorem join_suffix (n : Nat) (t : Text) : (join n t).2 <:+ t := by
  unfold join
  split
  · rename_i h
    split at h
    · exact lowSurrogate?_suffix h
    · cases h
  · exact List.suffix_refl t

theorem leaves_stringOnto (acc t : Text) : Leaves room t (stringOnto acc t) := by
  fun_induction stringOnto acc t with
  | case1 => exact .malformed _ _
  | case2 => exact .ok (List.suffix_cons _ _)
  | case3 => exact .malformed _ _
  | case4 => exact .malformed _ _
  | case5 acc t n rest hhex _ _ _ ih =>
    have hrest : (join n rest).2 <:+ CodePoint.backslash :: CodePoint.ofChar 'u' :: t :=
      ((join_suffix n rest).trans (hexFour?_suffix hhex)).trans (List.suffix_append [_, _] t)
    exact ih.bind hrest fun r hr => .ok hr
  | case6 => exact .malformed _ _
  | case7 acc e t _ c _ _ ih => exact ih.bind (List.suffix_append [_, _] t) fun r hr => .ok hr
  | case8 => exact .malformed _ _
  | case9 acc c t _ _ _ ih => exact ih.bind (List.suffix_cons c t) fun r hr => .ok hr

theorem leaves_string (t : Text) : Leaves room t (string t) := by
  unfold string
  split
  · exact .malformed _ _
  · exact leaves_stringOnto [] t

/-! ## Numbers and literals -/

theorem digits_suffix (t : Text) : (digits t).2 <:+ t := List.dropWhile_suffix _

theorem digits_isPrefix (t : Text) : (digits t).1 <+: t := List.takeWhile_prefix _

theorem isDigit_of_mem_digits {c : CodePoint} (hc : c ∈ (digits t).1) : c.isDigit = true :=
  List.all_eq_true.mp List.all_takeWhile c hc

theorem whole_suffix (t : Text) : (whole t).2 <:+ t := by
  unfold whole
  split
  · split
    · exact List.suffix_cons _ _
    · exact digits_suffix _
  · exact List.suffix_refl _

theorem whole_isPrefix (t : Text) : (whole t).1 <+: t := by
  unfold whole
  split
  · split
    · exact List.prefix_append [_] _
    · exact digits_isPrefix _
  · exact List.prefix_refl _

theorem isDigit_of_mem_whole {c : CodePoint} (hc : c ∈ (whole t).1) : c.isDigit = true := by
  unfold whole at hc
  split at hc
  · split at hc
    · rename_i hzero
      rw [List.mem_singleton.mp hc, hzero]
      rfl
    · exact isDigit_of_mem_digits hc
  · cases hc

theorem fraction_suffix (t : Text) : (fraction t).2 <:+ t := by
  unfold fraction
  split
  · split
    · exact (digits_suffix _).trans (List.suffix_cons _ _)
    · exact List.suffix_refl _
  · exact List.suffix_refl _

theorem unsign_suffix (t : Text) : (Text.unsign t).2 <:+ t := by
  unfold Text.unsign
  split
  · split
    · exact List.suffix_cons _ _
    · split
      · exact List.suffix_cons _ _
      · exact List.suffix_refl _
  · exact List.suffix_refl _

theorem exponent_suffix (t : Text) : (exponent t).2 <:+ t := by
  unfold exponent
  split
  · dsimp only
    split
    · exact ((digits_suffix _).trans (unsign_suffix _)).trans (List.suffix_cons _ _)
    · exact List.suffix_refl _
  · exact List.suffix_refl _

theorem takeNumeral_parts (t : Text) :
    (takeNumeral t).1.whole <:+: t ∧ (∀ c ∈ (takeNumeral t).1.whole, c.isDigit = true) ∧
      (takeNumeral t).2 <:+ t := by
  have hsigned : (if t.head? = some .hyphen then t.drop 1 else t) <:+ t := by
    split
    · exact List.drop_suffix 1 t
    · exact List.suffix_refl t
  have hwhole := (whole_isPrefix _).isInfix.trans hsigned.isInfix
  have hrest := (exponent_suffix _).trans ((fraction_suffix _).trans
    ((whole_suffix _).trans hsigned))
  exact ⟨hwhole, fun c hc => isDigit_of_mem_whole hc, hrest⟩

theorem Numeral.value_of_error {n : Numeral} {e : Refusal} (h : n.value = .error e) :
    e = .tooManyDigits n.whole.length ∧ Text.digitLimit < n.whole.length := by
  unfold Numeral.value at h
  split at h
  · split at h
    · exact ⟨(Except.error.inj h).symm, ‹_›⟩
    · cases h
  · cases h

theorem leaves_numeral (t : Text) : Leaves room t (numeral t) := by
  obtain ⟨hwhole, hdigits, hrest⟩ := takeNumeral_parts t
  unfold numeral
  split
  rename_i n rest heq
  rw [heq] at hwhole hdigits hrest
  split
  · exact .malformed _ _
  · have hvalue : Reads room t (fun _ => True) n.value := by
      cases hv : n.value with
      | ok v => exact .ok trivial
      | error e =>
        obtain ⟨rfl, hlong⟩ := Numeral.value_of_error hv
        exact .error (.tooManyDigits hwhole hdigits hlong)
    exact hvalue.bind fun v _ => .ok hrest

theorem literal?_suffix {v : Value} (h : literal? t = some (v, rest)) : rest <:+ t := by
  obtain ⟨⟨word, v'⟩, -, h⟩ := List.exists_of_findSome?_eq_some h
  dsimp only at h
  split at h
  · obtain ⟨-, rfl⟩ := Prod.mk.inj (Option.some.inj h)
    exact List.drop_suffix _ t
  · cases h

theorem leaves_scalar (t : Text) : Leaves room t (scalar t) := by
  unfold scalar
  split
  · exact .ok (literal?_suffix ‹_›)
  · exact leaves_numeral t

theorem leaves_delimiter (c : CodePoint) (cause : Cause) (t : Text) :
    Leaves room t (delimiter c cause t) := by
  unfold delimiter
  split
  · rename_i d rest hskip
    split
    · have hrest : d :: rest <:+ t := hskip ▸ skip_suffix t
      exact .ok ((List.suffix_cons d rest).trans hrest)
    · exact .malformed _ _
  · exact .malformed _ _

theorem delimiter_suffix {c : CodePoint} {cause : Cause} {r} (h : delimiter c cause t = .ok r) :
    r.1.2 <:+ t := by
  have hleaves : Leaves 0 t (delimiter c cause t) := leaves_delimiter c cause t
  rw [h] at hleaves
  cases hleaves with
  | ok hr => exact hr

/-! ## Values -/

theorem leaves_items (h : ∀ s, s <:+ t → Leaves room s (itemsFrom room s)) :
    Leaves room t (items room t) := by
  unfold items
  split
  · exact .ok (delimiter_suffix ‹_›)
  · exact (h _ (skip_suffix t)).bind (skip_suffix t) fun r hr => .ok hr

theorem leaves_members (h : ∀ s, s <:+ t → Leaves room s (membersFrom room s)) :
    Leaves room t (members room t) := by
  unfold members
  split
  · exact .ok (delimiter_suffix ‹_›)
  · exact (h _ (skip_suffix t)).bind (skip_suffix t) fun r hr => .ok hr

theorem Reads.tooDeep {p : β → Prop} {c : CodePoint} (hc : isOpening c = true) :
    Reads 0 (c :: t) p (.error .tooDeep) := by
  refine .error (.tooDeep ?_)
  rw [openings, List.countP_cons_of_pos hc]
  exact Nat.succ_pos _

theorem leaves_value_of_shorter
    (hi : ∀ room s, s.length < t.length → Leaves room s (itemsFrom room s))
    (hm : ∀ room s, s.length < t.length → Leaves room s (membersFrom room s)) :
    Leaves room t (value room t) := by
  unfold value
  split
  · exact .malformed _ _
  rename_i c body
  have hshorter : ∀ s, s <:+ body → s.length < (c :: body).length := fun s hs =>
    Nat.lt_succ_of_le hs.length_le
  split
  · exact (leaves_string body).bind (List.suffix_cons c body) fun r hr => .ok hr
  split
  · have hc : isOpening c = true := by simp [isOpening, ‹c = .bracket›]
    cases room with
    | zero => exact .tooDeep hc
    | succ room =>
      exact (leaves_items fun s hs => hi room s (hshorter s hs)).bind_opened hc fun r hr => .ok hr
  split
  · have hc : isOpening c = true := by simp [isOpening, ‹c = .brace›]
    cases room with
    | zero => exact .tooDeep hc
    | succ room =>
      exact (leaves_members fun s hs => hm room s (hshorter s hs)).bind_opened hc fun r hr => .ok hr
  · exact leaves_scalar _

theorem leaves_itemsFrom_of_shorter (hv : Leaves room t (value room t))
    (hi : ∀ s, s.length < t.length → Leaves room s (itemsFrom room s)) :
    Leaves room t (itemsFrom room t) := by
  unfold itemsFrom
  refine hv.bind (List.suffix_refl t) ?_
  rintro ⟨⟨v, rest⟩, hlt⟩ hrest
  dsimp only at hlt hrest ⊢
  split
  · exact .ok ((delimiter_suffix ‹_›).trans hrest)
  refine (leaves_delimiter _ _ rest).bind hrest ?_
  rintro ⟨⟨_, rest'⟩, hlt'⟩ hrest'
  dsimp only at hlt' hrest' ⊢
  have hskip := (skip_suffix rest').trans hrest'
  have hshorter := length_skip rest'
  exact (hi (skip rest') (by omega)).bind hskip fun r hr => .ok hr

theorem leaves_membersFrom_of_shorter
    (hv : ∀ s, s.length < t.length → Leaves room s (value room s))
    (hm : ∀ s, s.length < t.length → Leaves room s (membersFrom room s)) :
    Leaves room t (membersFrom room t) := by
  unfold membersFrom
  refine (leaves_delimiter _ _ t).bind (List.suffix_refl t) ?_
  rintro ⟨⟨_, body⟩, hquote⟩ hbody
  refine (leaves_string body).bind hbody ?_
  rintro ⟨⟨key, rest⟩, hkey⟩ hrest
  refine (leaves_delimiter _ _ rest).bind hrest ?_
  rintro ⟨⟨_, rest'⟩, hcolon⟩ hrest'
  dsimp only at hquote hkey hcolon hbody hrest hrest'
  have hskip := length_skip rest'
  refine (hv (skip rest') (by omega)).bind ((skip_suffix rest').trans hrest') ?_
  rintro ⟨⟨v, rest''⟩, hvalue⟩ hrest''
  dsimp only at hvalue hrest'' ⊢
  split
  · exact .ok ((delimiter_suffix ‹_›).trans hrest'')
  refine (leaves_delimiter _ _ rest'').bind hrest'' ?_
  rintro ⟨⟨_, left⟩, hcomma⟩ hleft
  dsimp only at hcomma hleft ⊢
  have hskip' := length_skip left
  exact (hm (skip left) (by omega)).bind ((skip_suffix left).trans hleft) fun r hr => .ok hr

theorem leaves_nested (t : Text) : ∀ room, Leaves room t (value room t) ∧
    Leaves room t (itemsFrom room t) ∧ Leaves room t (membersFrom room t) := by
  -- items and members begin with the value that they are read for, all other values are in shorter
  -- texts
  induction hk : t.length using Nat.strongRecOn generalizing t with
  | ind k ih =>
    intro room
    subst hk
    have hshorter : ∀ s, s.length < t.length → ∀ room, Leaves room s (value room s) ∧
        Leaves room s (itemsFrom room s) ∧ Leaves room s (membersFrom room s) :=
      fun s hs => ih _ hs s rfl
    have hv : Leaves room t (value room t) := leaves_value_of_shorter
      (fun room s hs => (hshorter s hs room).2.1) fun room s hs => (hshorter s hs room).2.2
    exact ⟨hv, leaves_itemsFrom_of_shorter hv fun s hs => (hshorter s hs room).2.1,
      leaves_membersFrom_of_shorter (fun s hs => (hshorter s hs room).1)
        fun s hs => (hshorter s hs room).2.2⟩

/-- **A value that is read leaves an end of the text, and one that is refused is accounted for.** -/
theorem leaves_value (room : Nat) (t : Text) : Leaves room t (value room t) :=
  (leaves_nested t room).1

/-! ## Documents -/

theorem document_of_error {e : Refusal} (h : document room t = .error e) :
    e.Accounted (room + 1) t := by
  have hreads : Reads (room + 1) t (fun _ => True) (document room t) := by
    unfold document
    split
    · exact .malformed _ _
    refine (leaves_value (room + 1) (skip t)).bind (skip_suffix t) ?_
    rintro ⟨⟨v, rest⟩, hlt⟩ -
    dsimp only
    split
    · exact .ok trivial
    · exact .malformed _ _
  rw [h] at hreads
  cases hreads with
  | error he => exact he

end LineShell.Json
