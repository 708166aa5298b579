import LineShell.Proofs.Refusals

/-!
# Room for nested values

How much room there is for values that are nested decides only whether a text is refused for being
nested too deep.  If it is not, more room makes no difference.

* `Json.Settles`: a result that more room does not change.
* `Json.settles_value`: every reader settles its text, by induction on the length of the text.
* `Json.Shallow`: a text whose values are nested at most 300 deep; `Json.Shallow.ofText_eq`: it is
  read in the same way wherever there is that much room.
* `Json.Modest`: a text that is shallow and has no integer that is too long;
  `Json.Modest.of_error`: it is malformed or read.
-/

namespace LineShell.Json

/-- The second result is the first one, unless that one refuses its text as nested too deep. -/
def Settles (x y : Except Refusal β) : Prop := x ≠ .error .tooDeep → y = x

namespace Settles

theorem refl (x : Except Refusal β) : Settles x x := fun _ => rfl

theorem bind {x y : Except Refusal β} {f g : β → Except Refusal γ} (h : Settles x y)
    (hf : ∀ b, Settles (f b) (g b)) : Settles (x >>= f) (y >>= g) := by
  intro hne
  cases x with
  | ok b =>
    rw [h nofun]
    exact hf b hne
  | error e =>
    have hy : y = .error e := h fun he => hne (congrArg (· >>= f) he)
    rw [hy]
    rfl

theorem bind_left (x : Except Refusal β) {f g : β → Except Refusal γ}
    (hf : ∀ b, x = .ok b → Settles (f b) (g b)) : Settles (x >>= f) (x >>= g) := by
  cases x with
  | ok b => exact hf b rfl
  | error e => exact fun _ => rfl

end Settles

/-! ## Values -/

variable {room room' : Nat} {t : Text}

theorem settles_items (h : Settles (itemsFrom room (skip t)) (itemsFrom room' (skip t))) :
    Settles (items room t) (items room' t) := by
  unfold items
  split
  · exact .refl _
  · exact h.bind fun r => .refl _

theorem settles_members (h : Settles (membersFrom room (skip t)) (membersFrom room' (skip t))) :
    Settles (members room t) (members room' t) := by
  unfold members
  split
  · exact .refl _
  · exact h.bind fun r => .refl _

theorem settles_value_of_shorter (hroom : room ≤ room')
    (hi : ∀ room room' s, room ≤ room' → s.length < t.length →
      Settles (itemsFrom room s) (itemsFrom room' s))
    (hm : ∀ room room' s, room ≤ room' → s.length < t.length →
      Settles (membersFrom room s) (membersFrom room' s)) :
    Settles (value room t) (value room' t) := by
  unfold value
  split
  · exact .refl _
  rename_i c body
  have hbody : (skip body).length < (c :: body).length := Nat.lt_succ_of_le (length_skip body)
  split
  · exact .refl _
  split
  · cases room with
    | zero => exact fun hne => absurd rfl hne
    | succ room =>
      obtain ⟨room', rfl⟩ := Nat.exists_eq_succ_of_ne_zero (Nat.ne_zero_of_lt hroom)
      exact (settles_items (hi _ _ _ (Nat.le_of_succ_le_succ hroom) hbody)).bind fun r => .refl _
  split
  · cases room with
    | zero => exact fun hne => absurd rfl hne
    | succ room =>
      obtain ⟨room', rfl⟩ := Nat.exists_eq_succ_of_ne_zero (Nat.ne_zero_of_lt hroom)
      exact (settles_members (hm _ _ _ (Nat.le_of_succ_le_succ hroom) hbody)).bind fun r => .refl _
  · exact .refl _

theorem settles_itemsFrom_of_shorter (hv : Settles (value room t) (value room' t))
    (hi : ∀ s, s.length < t.length → Settles (itemsFrom room s) (itemsFrom room' s)) :
    Settles (itemsFrom room t) (itemsFrom room' t) := by
  rw [itemsFrom.eq_def room, itemsFrom.eq_def room']
  refine hv.bind ?_
  rintro ⟨⟨v, rest⟩, hlt⟩
  dsimp only at hlt ⊢
  cases delimiter .bracketEnd .comma rest with
  | ok r => exact .refl _
  | error e =>
    refine .bind_left _ ?_
    rintro ⟨⟨_, rest'⟩, hlt'⟩ -
    have hskip := length_skip rest'
    dsimp only at hlt' ⊢
    exact (hi (skip rest') (by omega)).bind fun r => .refl _

theorem settles_membersFrom_of_shorter
    (hv : ∀ s, s.length < t.length → Settles (value room s) (value room' s))
    (hm : ∀ s, s.length < t.length → Settles (membersFrom room s) (membersFrom room' s)) :
    Settles (membersFrom room t) (membersFrom room' t) := by
  rw [membersFrom.eq_def room, membersFrom.eq_def room']
  refine .bind_left _ ?_
  rintro ⟨⟨_, body⟩, hquote⟩ -
  refine .bind_left _ ?_
  rintro ⟨⟨key, rest⟩, hkey⟩ -
  refine .bind_left _ ?_
  rintro ⟨⟨_, rest'⟩, hcolon⟩ -
  dsimp only at hquote hkey hcolon
  have hskip := length_skip rest'
  refine (hv (skip rest') (by omega)).bind ?_
  rintro ⟨⟨v, rest''⟩, hvalue⟩
  dsimp only at hvalue ⊢
  cases delimiter .braceEnd .comma rest'' with
  | ok r => exact .refl _
  | error e =>
    refine .bind_left _ ?_
    rintro ⟨⟨_, left⟩, hcomma⟩ -
    have hskip' := length_skip left
    dsimp only at hcomma ⊢
    exact (hm (skip left) (by omega)).bind fun r => .refl _

theorem settles_nested (t : Text) : ∀ room room', room ≤ room' →
    Settles (value room t) (value room' t) ∧ Settles (itemsFrom room t) (itemsFrom room' t) ∧
      Settles (membersFrom room t) (membersFrom room' t) := by
  -- as in `leaves_nested`, items and members begin with the value that they are read for
  obtain ⟨k, hk⟩ : ∃ k, t.length = k := ⟨_, rfl⟩
  induction k using Nat.strongRecOn generalizing t with
  | ind k ih =>
    subst hk
    intro room room' hroom
    have hshorter : ∀ s, s.length < t.length → ∀ room room', room ≤ room' →
        Settles (value room s) (value room' s) ∧ Settles (itemsFrom room s) (itemsFrom room' s) ∧
          Settles (membersFrom room s) (membersFrom room' s) := fun s hs => ih _ hs s rfl
    have hv : Settles (value room t) (value room' t) := settles_value_of_shorter hroom
      (fun room room' s hroom hs => (hshorter s hs room room' hroom).2.1)
      fun room room' s hroom hs => (hshorter s hs room room' hroom).2.2
    exact ⟨hv, settles_itemsFrom_of_shorter hv fun s hs => (hshorter s hs room room' hroom).2.1,
      settles_membersFrom_of_shorter (fun s hs => (hshorter s hs room room' hroom).1)
        fun s hs => (hshorter s hs room room' hroom).2.2⟩

/-- **More room makes no difference to a value that is not nested too deep.** -/
theorem settles_value (hroom : room ≤ room') (t : Text) :
    Settles (value room t) (value room' t) :=
  (settles_nested t room room' hroom).1

/-! ## Documents -/

theorem settles_document (hroom : room ≤ room') (t : Text) :
    Settles (document room t) (document room' t) := by
  unfold document
  split
  · exact .refl _
  · exact (settles_value (Nat.succ_le_succ hroom) (skip t)).bind fun r => .refl _

/-- Room for values that are nested 300 deep, the outermost one counted. -/
def ampleRoom : Nat := 299

/-- The values of the text are not nested deeper than that. -/
def Shallow (t : Text) : Prop := document ampleRoom t ≠ .error .tooDeep

/-- A text that opens no more arrays and objects than that is shallow. -/
theorem Shallow.of_openings (h : openings t ≤ 300) : Shallow t := by
  intro hdeep
  cases document_of_error hdeep with
  | tooDeep hdeep => exact absurd h (Nat.not_le.mpr hdeep)

namespace Shallow

variable (h : Shallow t)

include h

/-- **A shallow text is read in the same way wherever there is room for it.** -/
theorem ofText_eq (hroom : ampleRoom ≤ room) : Value.ofText t room = Value.ofText t ampleRoom := by
  rw [Value.ofText, settles_document hroom t h]
  rfl

theorem document_ne_tooDeep (hroom : ampleRoom ≤ room) : document room t ≠ .error .tooDeep := by
  rw [settles_document hroom t h]
  exact h

end Shallow

/-- No run of digits in the text is too long for an integer, and its values are not nested deep. -/
structure Modest (t : Text) : Prop where
  digits : ∀ ds, ds <:+: t → (∀ c ∈ ds, c.isDigit = true) → ds.length ≤ Text.digitLimit
  shallow : Shallow t

theorem Modest.of_length (h : t.length ≤ 300) : Modest t where
  digits ds hds _ := Nat.le_trans hds.length_le (Nat.le_trans h (by decide))
  shallow := .of_openings (Nat.le_trans (List.countP_le_length) h)

/-- **A modest text that is no document is malformed**, and there is a place where it is. -/
theorem Modest.of_error (h : Modest t) (hroom : ampleRoom ≤ room) {e : Error}
    (he : Value.ofText t room = .error e) : ∃ cause place, e = .malformed cause place := by
  unfold Value.ofText at he
  cases hd : document room t with
  | ok v =>
    rw [hd] at he
    cases he
  | error r =>
    rw [hd] at he
    obtain rfl := Except.error.inj he
    cases document_of_error hd with
    | malformed cause left => exact ⟨cause, _, rfl⟩
    | tooManyDigits hds hdigits hlong => exact absurd (h.digits _ hds hdigits) (by omega)
    | tooDeep => exact absurd hd (h.shallow.document_ne_tooDeep hroom)

end LineShell.Json
