import LineShell.Config.Load
import Mathlib.Data.List.Induction

/-!
# Which layer counts

Of all that is given for a setting one value counts, and what the others are changes nothing.

* `Json.Members.last?`: the value that a key is given last.
* `Json.Members.get?_putAll`: it is the one that is kept.
* `Json.written`: the members of an object as they are written, keys repeated or not.
* `Config.winner`: the value that counts for each setting.
* `Config.value`, `Config.settled`: a setting of a configuration, and what a layer makes of it.
* `Config.load_eq`: settings are loaded from the winners.
* `Config.load_winner`: two loads with the same winners come to the same.
-/

namespace LineShell

open Json (Value Members)

/-! ## Members -/

namespace Json

/-- The value that a key is given last. -/
def Members.last? (key : Text) (members : Members) : Option Value :=
  Members.get? key members.reverse

theorem Members.last?_concat (key : Text) (members : Members) (m : Text × Value) :
    Members.last? key (members ++ [m]) = if m.1 = key then some m.2 else members.last? key := by
  rw [last?, last?, List.reverse_concat, get?, List.find?_cons]
  by_cases h : m.1 = key
  · rw [if_pos h, beq_iff_eq.mpr h]
    rfl
  · rw [if_neg h, beq_eq_false_iff_ne.mpr h]
    rfl

/-- **Of the members that are put, the last one with a key is kept.**  If there is none, the key
keeps what it had. -/
theorem Members.get?_putAll (key : Text) (members later : Members) :
    Members.get? key (members.putAll later) = (later.last? key).or (members.get? key) := by
  induction later using List.reverseRecOn with
  | nil => rfl
  | append_singleton later m ih =>
    have hput : members.putAll (later ++ [m]) = (members.putAll later).put m.1 m.2 :=
      List.foldl_append
    rw [hput, get?_put, last?_concat, ih]
    by_cases h : m.1 = key
    · rw [if_pos h.symm, if_pos h]
      rfl
    · rw [if_neg (Ne.symm h), if_neg h]

/-! ## Objects as they are written -/

/-- The members of the object that a document holds, as they are written: a key that is repeated has
several. -/
def written (room : Nat) (t : Text) : Members :=
  match skip t with
  | [] => []
  | _ :: rest =>
    match members room rest with
    | .ok ⟨(ms, _), _⟩ => ms
    | .error _ => []

theorem ok_of_bind {ε α β : Type} {x : Except ε α} {f : α → Except ε β} {b : β}
    (h : x >>= f = .ok b) : ∃ a, x = .ok a ∧ f a = .ok b := by
  cases x with
  | ok a => exact ⟨a, rfl, h⟩
  | error e => cases h

theorem Numeral.value_ne_object {n : Numeral} {ms : Members} : n.value ≠ .ok (.object ms) := by
  unfold Numeral.value
  split
  · split
    · nofun
    · nofun
  · nofun

theorem scalar_ne_object {t rest : Text} {ms : Members} {h} :
    scalar t ≠ .ok ⟨(.object ms, rest), h⟩ := by
  intro hs
  unfold scalar at hs
  split at hs
  · rename_i v left hl
    obtain ⟨rfl, -⟩ := Prod.mk.inj (Subtype.mk.inj (Except.ok.inj hs))
    obtain ⟨⟨word, v⟩, hmem, hv⟩ := List.exists_of_findSome?_eq_some hl
    dsimp only at hv
    split at hv
    · obtain ⟨rfl, -⟩ := Prod.mk.inj (Option.some.inj hv)
      simp [literals] at hmem
    · cases hv
  · unfold numeral at hs
    split at hs
    split at hs
    · cases hs
    · obtain ⟨v, hv, hs⟩ := ok_of_bind hs
      obtain ⟨rfl, -⟩ := Prod.mk.inj (Subtype.mk.inj (Except.ok.inj hs))
      exact Numeral.value_ne_object hv

/-- An object is what a brace opens, and its members are put into it in the order in which they are
written. -/
theorem members_of_object {room : Nat} {t rest : Text} {ms : Members} {h}
    (hv : value (room + 1) t = .ok ⟨(.object ms, rest), h⟩) :
    ∃ c body ms' left, ∃ h', t = c :: body ∧
      members room body = .ok ⟨(ms', left), h'⟩ ∧ ms = Members.putAll [] ms' := by
  unfold value at hv
  cases t with
  | nil => cases hv
  | cons c body =>
    dsimp only at hv
    split at hv
    · obtain ⟨r, -, hv⟩ := ok_of_bind hv
      cases hv
    split at hv
    · obtain ⟨r, -, hv⟩ := ok_of_bind hv
      cases hv
    split at hv
    · obtain ⟨⟨⟨ms', left⟩, h'⟩, hms, hv⟩ := ok_of_bind hv
      obtain ⟨hobj, -⟩ := Prod.mk.inj (Subtype.mk.inj (Except.ok.inj hv))
      exact ⟨c, body, ms', left, h', rfl, hms, (Value.object.inj hobj).symm⟩
    · exact absurd hv scalar_ne_object

/-- **Of the members of a document, the last one with a key counts.** -/
theorem putAll_written {room : Nat} {t : Text} {ms : Members}
    (h : Value.ofText t room = .ok (.object ms)) : ms = Members.putAll [] (written room t) := by
  unfold Value.ofText at h
  cases hd : document room t with
  | error r =>
    rw [hd] at h
    cases h
  | ok v =>
    rw [hd] at h
    obtain rfl := Except.ok.inj h
    unfold document at hd
    split at hd
    · cases hd
    · obtain ⟨-, -, hd⟩ := ok_of_bind hd
      obtain ⟨⟨⟨v, rest⟩, hrest⟩, hv, hd⟩ := ok_of_bind hd
      dsimp only at hd
      split at hd
      · obtain rfl := Except.ok.inj hd
        obtain ⟨c, body, ms', left, h', ht, hms, rfl⟩ := members_of_object hv
        rw [written, ht]
        dsimp only
        rw [hms]
      · cases hd

end Json

/-! ## The layers -/

namespace Config

def written (s : Sources) (file : Text) : Members :=
  match s.files file with
  | .ok bytes => Json.written s.room (unixLines (.ofBytes bytes))
  | .error _ => []

/-- There is no such file, or it holds an object. -/
inductive Readable (s : Sources) (file : Text) : Prop
  | missing {e : SystemError} : s.files file = .error e → isMissing e = true → Readable s file
  | object {bytes : Bytes} {t : Text} {ms : Members} : s.files file = .ok bytes →
      Text.ofUtf8 bytes = .ok t → Value.ofText (unixLines t) s.room = .ok (.object ms) →
      Readable s file

theorem fileMembers_of_readable {s : Sources} {file : Text} (h : Readable s file) :
    fileMembers s file = .ok (Members.putAll [] (written s file)) := by
  unfold fileMembers written
  cases h with
  | missing hfile he =>
    rw [hfile]
    dsimp only
    rw [if_pos he]
    rfl
  | @object bytes t ms hfile ht hms =>
    have hbytes : t = .ofBytes bytes := by
      unfold Text.ofUtf8 at ht
      split at ht
      · cases ht
      · exact (Except.ok.inj ht).symm
    rw [hfile]
    dsimp only
    rw [membersOf, ht]
    dsimp only
    rw [hms]
    rw [← hbytes, ← Json.putAll_written hms]

theorem readable_of_fileMembers {s : Sources} {file : Text} {members : Members}
    (h : fileMembers s file = .ok members) : Readable s file := by
  unfold fileMembers at h
  split at h
  · rename_i bytes hfile
    unfold membersOf at h
    split at h
    · cases h
    · rename_i t ht
      split at h
      · rename_i hv
        exact .object hfile ht hv
      · cases h
      · cases h
      · cases h
      · cases h
  · rename_i e hfile
    split at h
    · rename_i hmissing
      exact .missing hfile hmissing
    · cases h

theorem readable_of_load {s : Sources} {config : Config} (hload : load s = .ok config) :
    ∃ path, location s = .ok path ∧ Readable s path.toText := by
  obtain ⟨path, hpath, hload⟩ := Json.ok_of_bind hload
  obtain ⟨members, hgather, -⟩ := Json.ok_of_bind hload
  obtain ⟨inFile, hfile, -⟩ := Json.ok_of_bind hgather
  exact ⟨path, hpath, readable_of_fileMembers hfile⟩

/-- The value that counts for each setting: what is given for the run, nulls apart, or else what the
environment says, or else what the file says.  Of several in one layer the last one counts. -/
def winner (s : Sources) (file : Text) : Layer := fun field =>
  ((withoutNulls s.given).last? field.key).or <|
    (environmentLayer s.environment field).or <| (written s file).last? field.key

theorem key_injective {f g : Field} (h : f.key = g.key) : f = g := by
  cases f <;> cases g <;> first | rfl | exact absurd h (by decide)

theorem last?_layerMembers (layer : Layer) (field : Field) :
    (layerMembers layer).last? field.key = layer field := by
  have hlast : ∀ fields : List Field,
      Members.last? field.key (fields.filterMap fun f => (layer f).map fun v => (f.key, v)) =
        if field ∈ fields then layer field else none := by
    intro fields
    induction fields using List.reverseRecOn with
    | nil => rfl
    | append_singleton fields f ih =>
      rw [List.filterMap_append]
      cases hv : layer f with
      | none =>
        rw [List.filterMap_cons_none (by rw [hv]; rfl), List.filterMap_nil, List.append_nil, ih]
        by_cases hf : field = f
        · subst hf
          simp [hv]
        · simp [hf]
      | some v =>
        rw [List.filterMap_cons_some (b := (f.key, v)) (by rw [hv]; rfl), List.filterMap_nil,
          Members.last?_concat, ih]
        by_cases hf : field = f
        · subst hf
          simp [hv]
        · rw [if_neg fun h => hf (key_injective h).symm]
          simp [hf]
  rw [layerMembers, hlast, if_pos (by cases field <;> decide)]

/-- **Together the layers give each setting the value that counts.** -/
theorem gather_winner {s : Sources} {file : Text} (h : Readable s file) :
    ∃ members, gather s file = .ok members ∧ layerOf members = winner s file := by
  unfold gather
  rw [fileMembers_of_readable h]
  refine ⟨_, rfl, ?_⟩
  funext field
  rw [layerOf, Members.get?_putAll, Members.get?_putAll, Members.get?_putAll, last?_layerMembers,
    winner]
  congr 2
  exact Option.or_none

theorem load_eq {s : Sources} {path : Path} (hpath : location s = .ok path)
    (hfile : Readable s path.toText) :
    load s = (ofLayer (winner s path.toText)).mapError fun rejections =>
      .bad (.rejected rejections) := by
  obtain ⟨members, hgather, hlayer⟩ := gather_winner hfile
  have hload : load s = location s >>= fun path => gather s path.toText >>= fun members =>
      (ofLayer (layerOf members)).mapError fun rejections => .bad (.rejected rejections) := rfl
  rw [hload, hpath]
  show gather s path.toText >>= _ = _
  rw [hgather, ← hlayer]
  rfl

/-! ## What a layer makes of the settings -/

def value (config : Config) : Field → Value
  | .prompt => .string config.prompt
  | .banner => .string config.banner
  | .lineLimit => .int config.lineLimit
  | .echo => .bool config.echo
  | .reportStatus => .bool config.reportStatus

/-- What a setting takes a value for, or why it refuses it. -/
def validated (field : Field) (v : Value) : Except Issue Value :=
  match field with
  | .prompt | .banner => (text v).map .string
  | .lineLimit => (limit v).map fun n => .int n.val
  | .echo | .reportStatus => (switch v).map .bool

/-- What a layer makes of a setting; what it does not give has its default. -/
def settled (layer : Layer) (field : Field) : Except Rejection Value :=
  match layer field with
  | none => .ok (value {} field)
  | some v => (validated field v).mapError fun issue => { field, value := v, issue }

def rejections (layer : Layer) : List Rejection :=
  Field.all.flatMap fun field => rejection? (settled layer field)

theorem settled_eq_map {layer : Layer} {field : Field} {check : Value → Except Issue α}
    {default : α} {toValue : α → Value}
    (hv : ∀ v, validated field v = (check v).map toValue) (hd : value {} field = toValue default) :
    settled layer field = (setting layer field check default).map toValue := by
  unfold settled setting
  cases layer field with
  | none =>
    rw [hd]
    rfl
  | some v =>
    dsimp only
    rw [hv]
    cases check v <;> rfl

theorem rejection?_map (e : Except Rejection α) (f : α → β) :
    rejection? (e.map f) = rejection? e := by cases e <;> rfl

theorem eq_ok_of_rejection? {e : Except Rejection α} (h : rejection? e = []) : ∃ a, e = .ok a := by
  cases e with
  | ok a => exact ⟨a, rfl⟩
  | error r => cases h

theorem settled_eq (layer : Layer) (field : Field) : settled layer field = match field with
    | .prompt => (setting layer .prompt text ({} : Config).prompt).map .string
    | .banner => (setting layer .banner text ({} : Config).banner).map .string
    | .lineLimit => (setting layer .lineLimit limit
        ⟨({} : Config).lineLimit, ({} : Config).two_le_lineLimit⟩).map fun n => .int n.val
    | .echo => (setting layer .echo switch ({} : Config).echo).map .bool
    | .reportStatus =>
      (setting layer .reportStatus switch ({} : Config).reportStatus).map .bool := by
  cases field <;> exact settled_eq_map (fun _ => rfl) rfl

/-- **A layer makes a configuration, or all that it refuses is told.** -/
theorem ofLayer_cases (layer : Layer) :
    (∃ config, ofLayer layer = .ok config ∧
      ∀ field, settled layer field = .ok (config.value field)) ∨
    ofLayer layer = .error (rejections layer) ∧ rejections layer ≠ [] := by
  unfold ofLayer
  dsimp only
  split
  · rename_i h₁ h₂ h₃ h₄ h₅
    refine Or.inl ⟨_, rfl, ?_⟩
    intro field
    rw [settled_eq]
    cases field with
    | prompt => exact congrArg (Except.map _) h₁
    | banner => exact congrArg (Except.map _) h₂
    | lineLimit => exact congrArg (Except.map _) h₃
    | echo => exact congrArg (Except.map _) h₄
    | reportStatus => exact congrArg (Except.map _) h₅
  · rename_i hnone
    have hall : rejections layer = rejection? (settled layer .prompt) ++
        rejection? (settled layer .banner) ++ rejection? (settled layer .lineLimit) ++
        rejection? (settled layer .echo) ++ rejection? (settled layer .reportStatus) := by
      simp [rejections, Field.all]
    simp only [settled_eq, rejection?_map] at hall
    refine Or.inr ⟨congrArg Except.error hall.symm, ?_⟩
    intro hempty
    rw [hall] at hempty
    simp only [List.append_eq_nil_iff] at hempty
    obtain ⟨⟨⟨⟨h₁, h₂⟩, h₃⟩, h₄⟩, h₅⟩ := hempty
    obtain ⟨prompt, h₁⟩ := eq_ok_of_rejection? h₁
    obtain ⟨banner, h₂⟩ := eq_ok_of_rejection? h₂
    obtain ⟨lineLimit, h₃⟩ := eq_ok_of_rejection? h₃
    obtain ⟨echo, h₄⟩ := eq_ok_of_rejection? h₄
    obtain ⟨reportStatus, h₅⟩ := eq_ok_of_rejection? h₅
    exact hnone _ _ _ _ _ h₁ h₂ h₃ h₄ h₅

theorem settled_eq_error_iff {layer : Layer} {field : Field} {r : Rejection} :
    settled layer field = .error r ↔
      ∃ v issue, layer field = some v ∧ validated field v = .error issue ∧
        r = ⟨field, v, issue⟩ := by
  unfold settled
  cases layer field with
  | none => simp
  | some v =>
    cases hv : validated field v with
    | ok a => simp [hv, Except.mapError]
    | error issue => simp [hv, Except.mapError, eq_comm]

theorem mem_rejections {layer : Layer} {r : Rejection} :
    r ∈ rejections layer ↔ ∃ field, settled layer field = .error r := by
  have hmem : ∀ e : Except Rejection Value, r ∈ rejection? e ↔ e = .error r := by
    intro e
    cases e <;> simp [rejection?, eq_comm]
  have hall : ∀ field : Field, field ∈ Field.all := by
    intro field
    cases field <;> decide
  simp only [rejections, List.mem_flatMap, hmem, hall, true_and]

theorem value_injective {config config' : Config} (h : config.value = config'.value) :
    config = config' := by
  have hprompt := Value.string.inj (congrFun h .prompt)
  have hbanner := Value.string.inj (congrFun h .banner)
  have hlimit := Value.int.inj (congrFun h .lineLimit)
  have hecho := Value.bool.inj (congrFun h .echo)
  have hstatus := Value.bool.inj (congrFun h .reportStatus)
  cases config
  cases config'
  simp only [Config.mk.injEq]
  exact ⟨hprompt, hbanner, hlimit, hecho, hstatus⟩

theorem ofLayer_eq_ok_iff {layer : Layer} {config : Config} :
    ofLayer layer = .ok config ↔ ∀ field, settled layer field = .ok (config.value field) := by
  rcases ofLayer_cases layer with ⟨config', hok, hall⟩ | ⟨herror, hne⟩
  · rw [hok]
    constructor
    · rintro ⟨⟩
      exact hall
    · intro h
      have hvalue : config'.value = config.value :=
        funext fun field => Except.ok.inj ((hall field).symm.trans (h field))
      rw [value_injective hvalue]
  · rw [herror]
    refine ⟨nofun, ?_⟩
    intro h
    obtain ⟨r, hr⟩ := List.exists_mem_of_ne_nil _ hne
    obtain ⟨field, hfield⟩ := mem_rejections.mp hr
    cases hfield.symm.trans (h field)

theorem ofLayer_eq_error_iff {layer : Layer} {rs : List Rejection} :
    ofLayer layer = .error rs ↔ rs = rejections layer ∧ ∃ field v issue,
      layer field = some v ∧ validated field v = .error issue := by
  rcases ofLayer_cases layer with ⟨config, hok, hall⟩ | ⟨herror, hne⟩
  · rw [hok]
    refine ⟨nofun, fun ⟨_, field, v, issue, hv, hissue⟩ => ?_⟩
    cases (hall field).symm.trans (settled_eq_error_iff.mpr ⟨v, issue, hv, hissue, rfl⟩)
  · rw [herror]
    constructor
    · rintro ⟨⟩
      obtain ⟨r, hr⟩ := List.exists_mem_of_ne_nil _ hne
      obtain ⟨field, hfield⟩ := mem_rejections.mp hr
      obtain ⟨v, issue, hv, hissue, -⟩ := settled_eq_error_iff.mp hfield
      exact ⟨rfl, field, v, issue, hv, hissue⟩
    · rintro ⟨rfl, -⟩
      rfl

/-! ## Loading -/

/-- **The first layer that gives a setting counts for it, and nothing else does.**  Suppose that the
place of the file is known and that the file, if there is one, holds an object.  Then any other
sources with the same winners load the same, be it a configuration or an error.  Each setting of a
configuration is what it takes its winner for, or its default if there is none.  Settings are
refused iff one of the winners is, and then all winners that are refused are told and nothing
else. -/
theorem load_winner {s : Sources} {path : Path} (hpath : location s = .ok path)
    (hfile : Readable s path.toText) :
    (∀ (s' : Sources) (path' : Path), location s' = .ok path' → Readable s' path'.toText →
      (∀ field, winner s' path'.toText field = winner s path.toText field) → load s' = load s) ∧
    (∀ config, load s = .ok config ↔
      ∀ field, settled (winner s path.toText) field = .ok (config.value field)) ∧
    (∀ e, load s = .error e ↔ e = .bad (.rejected (rejections (winner s path.toText))) ∧
      ∃ field v issue, winner s path.toText field = some v ∧ validated field v = .error issue) ∧
    ∀ config, load s = .ok config → 2 ≤ config.lineLimit := by
  rw [load_eq hpath hfile]
  refine ⟨?_, ?_, ?_, ?_⟩
  · intro s' path' hpath' hfile' hw
    rw [load_eq hpath' hfile', funext hw]
  · intro config
    rw [← ofLayer_eq_ok_iff]
    cases ofLayer (winner s path.toText) <;> simp [Except.mapError]
  · intro e
    cases hw : ofLayer (winner s path.toText) with
    | ok config =>
      refine ⟨nofun, ?_⟩
      rintro ⟨-, hissue⟩
      cases hw.symm.trans (ofLayer_eq_error_iff.mpr ⟨rfl, hissue⟩)
    | error rs =>
      obtain ⟨rfl, hissue⟩ := ofLayer_eq_error_iff.mp hw
      simp only [Except.mapError, Except.error.injEq]
      exact ⟨fun he => ⟨he.symm, hissue⟩, fun ⟨he, _⟩ => he.symm⟩
  · intro config _
    exact config.two_le_lineLimit

/-- What is refused stands behind other values: a number in the file behind an empty prompt of the
environment, an empty switch of the environment behind a `false` that is given for the run.  The
same is loaded where only the winners are given. -/
theorem load_winner_of_shadowed : ∃ (s s' : Sources) (path path' : Path) (config : Config),
    location s = .ok path ∧ Readable s path.toText ∧
    location s' = .ok path' ∧ Readable s' path'.toText ∧
    s.files path.toText =
      .ok (Text.bytes "\x7b\"prompt\":7,\"banner\":0,\"banner\":\"b\"\x7d") ∧
    s.environment "LABSH_PROMPT" = some [] ∧ s.environment "LABSH_REPORT_STATUS" = some [] ∧
    (Field.reportStatus.key, .bool false) ∈ s.given ∧
    s'.files path'.toText = .error .noSuchFile ∧ load s' = load s ∧ load s = .ok config ∧
    config.prompt = [] ∧ config.banner = .ofString "b" ∧ config.reportStatus = false := by
  let file := Text.bytes "\x7b\"prompt\":7,\"banner\":0,\"banner\":\"b\"\x7d"
  let s : Sources := {
    environment := fun name =>
      if name = "LABSH_PROMPT" ∨ name = "LABSH_REPORT_STATUS" then some [] else none
    files := fun _ => .ok file
    defaultFile := fileIn (.ofString "/h")
    given := [(.ofString "x", .int 1), (Field.reportStatus.key, .bool false),
      (Field.banner.key, .null)] }
  let s' : Sources := {
    environment := fun _ => none
    files := fun _ => .error .noSuchFile
    defaultFile := fileIn []
    given := [(Field.reportStatus.key, .bool false), (Field.prompt.key, .string []),
      (Field.banner.key, .string (.ofString "b"))] }
  have hpath : location s = .ok s.defaultFile := rfl
  have hpath' : location s' = .ok s'.defaultFile := rfl
  have hfile : Readable s s.defaultFile.toText := by
    refine @Readable.object _ _ file (.ofBytes file) [(Field.prompt.key, .int 7),
      (Field.banner.key, .string (.ofString "b"))] rfl ?_ ?_
    · with_unfolding_all exact rfl
    · with_unfolding_all exact rfl
  have hfile' : Readable s' s'.defaultFile.toText := .missing rfl rfl
  have hwritten : written s s.defaultFile.toText = [(Field.prompt.key, .int 7),
      (Field.banner.key, .int 0), (Field.banner.key, .string (.ofString "b"))] := by
    with_unfolding_all exact rfl
  have hw : ∀ field,
      winner s' s'.defaultFile.toText field = winner s s.defaultFile.toText field := by
    intro field
    rw [winner, winner, hwritten]
    cases field <;> with_unfolding_all exact rfl
  have hload := (load_winner hpath hfile).1 s' _ hpath' hfile' hw
  have hconfig : ∃ config, load s' = .ok config ∧ config.prompt = [] ∧
      config.banner = .ofString "b" ∧ config.reportStatus = false := ⟨_, rfl, rfl, rfl, rfl⟩
  obtain ⟨config, hok, hvalues⟩ := hconfig
  exact ⟨s, s', _, _, config, hpath, hfile, hpath', hfile', rfl, rfl, rfl, .tail _ (.head _), rfl,
    hload, hload ▸ hok, hvalues⟩

end Config

end LineShell
