import LineShell.Invocation
import LineShell.Proofs.Command
import LineShell.Proofs.Decoding
import LineShell.Proofs.Nesting

/-!
# Why no settings are loaded

A bad configuration should be told, and end a run with an exit code of its own.  Most of what can go
wrong is told so; but a home that is not known, bytes that are no UTF-8, and texts that are refused
though they are not malformed are no bad configuration, and with them the run ends in a fault.

* `Path.Homeless`: a path from a home that is not known.
* `Config.Fails`: all that can go wrong, stage by stage.
* `Config.load_eq_error_iff`: settings are not loaded just where something goes wrong.
* `Config.Fair`: sources with which only a bad configuration goes wrong.
* `Config.load_escapes`: what is told of a configuration, and what is not.
* `Config.no_utf8_unwinds`: a file that is no UTF-8 ends a run with a fault.
-/

namespace LineShell

open Json (Value Members)
open LineShell.Action

/-! ## The place of the file -/

namespace Path

variable {homes : Text → Option Text}

/-- The path starts at the home of a user, and that is not known or starts with a tilde itself. -/
def Homeless (homes : Text → Option Text) (p : Path) : Prop :=
  p.root = .none ∧ ∃ name parts, p.parts = (.tilde :: name) :: parts ∧
    ∀ directory, homes name = some directory → (homeDirectory directory).head? = some .tilde

theorem homeless_cons_iff {c : CodePoint} {name : Text} {parts : List Text} :
    Homeless homes ⟨.none, (c :: name) :: parts⟩ ↔ c = .tilde ∧
      ∀ directory, homes name = some directory → (homeDirectory directory).head? = some .tilde := by
  constructor
  · rintro ⟨-, _, _, hparts, h⟩
    cases hparts
    exact ⟨rfl, h⟩
  · rintro ⟨rfl, h⟩
    exact ⟨rfl, name, parts, rfl, h⟩

theorem expandHome?_eq_none_iff {p : Path} : p.expandHome? homes = none ↔ p.Homeless homes := by
  obtain ⟨root, parts⟩ := p
  unfold expandHome?
  split
  · rename_i c name parts hroot hparts
    cases hroot
    cases hparts
    rw [homeless_cons_iff]
    by_cases hc : c = .tilde
    · rw [if_neg (not_not_intro hc)]
      cases homes name with
      | none => simp [hc]
      | some directory => simp [hc]
    · simp [hc]
  · rename_i hother
    refine ⟨nofun, ?_⟩
    rintro ⟨hroot, name, parts, hparts, -⟩
    exact absurd hparts (hother _ _ _ hroot)

end Path

namespace Config

variable {s : Sources}

def placed (environment : Environment) : Text :=
  Text.trim CodePoint.isBlank (((environment fileVariable).map Text.ofBytes).getD [])

theorem location_eq (s : Sources) : location s = match placed s.environment with
    | [] => .ok s.defaultFile
    | file => match (Path.ofText file).expandHome? (homeOf s) with
      | some path => .ok path
      | none => .error .homeless := rfl

theorem location_eq_error_iff {e : LoadError} : location s = .error e ↔
    e = .homeless ∧ (Path.ofText (placed s.environment)).Homeless (homeOf s) := by
  rw [← Path.expandHome?_eq_none_iff, location_eq]
  cases placed s.environment with
  | nil => exact ⟨nofun, fun h => nomatch h.2⟩
  | cons c file =>
    dsimp only
    cases (Path.ofText (c :: file)).expandHome? (homeOf s) with
    | some path => exact ⟨nofun, fun h => nomatch h.2⟩
    | none => exact ⟨fun h => ⟨(Except.error.inj h).symm, rfl⟩, fun h => h.1 ▸ rfl⟩

/-! ## What can go wrong -/

structure Opened (s : Sources) (path : Path) (bytes : Bytes) : Prop where
  location : location s = .ok path
  content : s.files path.toText = .ok bytes

/-- The file is at `path` and holds the text `t`, with all line ends as line feeds. -/
def Decoded (s : Sources) (path : Path) (t : Text) : Prop :=
  ∃ bytes, Opened s path bytes ∧ Utf8.defect? bytes = none ∧ t = unixLines (.ofBytes bytes)

/-- All that can go wrong, stage by stage. -/
inductive Fails (s : Sources) : LoadError → Prop
  | homeless : (Path.ofText (placed s.environment)).Homeless (homeOf s) →
      Fails s .homeless
  | unreadable {path : Path} {e : SystemError} : location s = .ok path →
      s.files path.toText = .error e → isMissing e = false →
      Fails s (.bad (.unreadable path.toText e))
  | undecodable {path : Path} {bytes : Bytes} {d : Utf8.Defect} : Opened s path bytes →
      Utf8.defect? bytes = some d → Fails s (.undecodable d)
  | malformed {path : Path} {t : Text} {cause : Json.Cause} {place : Json.Place} :
      Decoded s path t → Value.ofText t s.room = .error (.malformed cause place) →
      Fails s (.bad (.malformed path.toText cause place))
  | tooManyDigits {path : Path} {t : Text} {count : Nat} : Decoded s path t →
      Value.ofText t s.room = .error (.tooManyDigits count) → Fails s (.tooManyDigits count)
  | tooDeep {path : Path} {t : Text} : Decoded s path t → Value.ofText t s.room = .error .tooDeep →
      Fails s .tooDeep
  | notObject {path : Path} {t : Text} {v : Value} : Decoded s path t →
      Value.ofText t s.room = .ok v → (∀ members, v ≠ .object members) →
      Fails s (.bad (.notObject path.toText))
  | rejected {path : Path} {members : Members} {rejections : List Rejection} :
      location s = .ok path → gather s path.toText = .ok members →
      ofLayer (layerOf members) = .error rejections → Fails s (.bad (.rejected rejections))

/-! ## The content of the file -/

def membersOfDocument (file : Text) : Except Json.Error Value → Except LoadError Members
  | .ok (.object members) => .ok members
  | .ok _ => .error (.bad (.notObject file))
  | .error (.malformed cause place) => .error (.bad (.malformed file cause place))
  | .error (.tooManyDigits count) => .error (.tooManyDigits count)
  | .error .tooDeep => .error .tooDeep

theorem membersOf_of_defect {room : Nat} {file : Text} {bytes : Bytes} {d : Utf8.Defect}
    (hd : Utf8.defect? bytes = some d) : membersOf room file bytes = .error (.undecodable d) := by
  rw [membersOf, Text.ofUtf8, hd]

theorem membersOf_of_no_defect {room : Nat} {file : Text} {bytes : Bytes}
    (hd : Utf8.defect? bytes = none) : membersOf room file bytes =
      membersOfDocument file (Value.ofText (unixLines (.ofBytes bytes)) room) := by
  rw [membersOf, Text.ofUtf8, hd]
  rfl

theorem membersOfDocument_of_ne_object {file : Text} {v : Value}
    (hv : ∀ members, v ≠ .object members) :
    membersOfDocument file (.ok v) = .error (.bad (.notObject file)) := by
  cases v with
  | object members => exact absurd rfl (hv members)
  | _ => rfl

variable {path : Path} {bytes : Bytes} {t : Text} {e : LoadError}

theorem Opened.fileMembers (ho : Opened s path bytes) :
    fileMembers s path.toText = membersOf s.room path.toText bytes := by
  rw [Config.fileMembers, ho.content]

theorem Decoded.fileMembers (ht : Decoded s path t) :
    fileMembers s path.toText = membersOfDocument path.toText (Value.ofText t s.room) := by
  obtain ⟨bytes, ho, hd, rfl⟩ := ht
  rw [ho.fileMembers, membersOf_of_no_defect hd]

theorem Decoded.location (ht : Decoded s path t) : location s = .ok path := by
  obtain ⟨bytes, ho, -, -⟩ := ht
  exact ho.location

theorem Decoded.fails (ht : Decoded s path t)
    (he : membersOfDocument path.toText (Value.ofText t s.room) = .error e) : Fails s e := by
  cases hv : Value.ofText t s.room with
  | ok v =>
    rw [hv] at he
    by_cases hobject : ∃ members, v = .object members
    · obtain ⟨members, rfl⟩ := hobject
      cases he
    · rw [membersOfDocument_of_ne_object (not_exists.mp hobject)] at he
      cases he
      exact .notObject ht hv (not_exists.mp hobject)
  | error error =>
    rw [hv] at he
    cases error with
    | malformed cause place =>
      cases he
      exact .malformed ht hv
    | tooManyDigits count =>
      cases he
      exact .tooManyDigits ht hv
    | tooDeep =>
      cases he
      exact .tooDeep ht hv

theorem fails_of_fileMembers (hl : location s = .ok path)
    (he : fileMembers s path.toText = .error e) : Fails s e := by
  cases hf : s.files path.toText with
  | ok bytes =>
    have ho : Opened s path bytes := ⟨hl, hf⟩
    cases hd : Utf8.defect? bytes with
    | some d =>
      rw [ho.fileMembers, membersOf_of_defect hd] at he
      cases he
      exact .undecodable ho hd
    | none =>
      have ht : Decoded s path (unixLines (.ofBytes bytes)) := ⟨bytes, ho, hd, rfl⟩
      exact ht.fails (ht.fileMembers ▸ he)
  | error error =>
    rw [fileMembers, hf] at he
    dsimp only at he
    split at he
    · cases he
    · rename_i hmissing
      cases he
      exact .unreadable hl hf (Bool.eq_false_iff.mpr hmissing)

/-! ## All stages -/

theorem load_of_location (hl : location s = .ok path) : load s = gather s path.toText >>=
    fun members => (ofLayer (layerOf members)).mapError fun rs => .bad (.rejected rs) := by
  rw [load, hl]
  rfl

theorem load_of_fileMembers (hl : location s = .ok path)
    (he : fileMembers s path.toText = .error e) : load s = .error e := by
  rw [load_of_location hl, gather, he]
  rfl

theorem fileMembers_of_gather {file : Text} (h : gather s file = .error e) :
    fileMembers s file = .error e := by
  rw [gather] at h
  cases hm : fileMembers s file with
  | error e' =>
    rw [hm] at h
    exact h
  | ok members =>
    rw [hm] at h
    cases h

theorem Fails.load (h : Fails s e) : load s = .error e := by
  cases h with
  | homeless hhome =>
    rw [Config.load, location_eq_error_iff.mpr ⟨rfl, hhome⟩]
    rfl
  | unreadable hl hf hmissing =>
    refine load_of_fileMembers hl ?_
    rw [fileMembers, hf]
    exact if_neg (Bool.eq_false_iff.mp hmissing)
  | undecodable ho hd =>
    exact load_of_fileMembers ho.location (ho.fileMembers.trans (membersOf_of_defect hd))
  | malformed ht hv | tooManyDigits ht hv | tooDeep ht hv =>
    refine load_of_fileMembers ht.location (ht.fileMembers.trans ?_)
    rw [hv]
    rfl
  | notObject ht hv hobject =>
    refine load_of_fileMembers ht.location (ht.fileMembers.trans ?_)
    rw [hv, membersOfDocument_of_ne_object hobject]
  | rejected hl hm hr =>
    rw [load_of_location hl, hm]
    change (ofLayer _).mapError _ = _
    rw [hr]
    rfl

/-- **Settings are not loaded just where something goes wrong.** -/
theorem load_eq_error_iff : load s = .error e ↔ Fails s e := by
  refine ⟨?_, Fails.load⟩
  intro h
  cases hl : location s with
  | error e' =>
    rw [load, hl] at h
    obtain rfl : e' = e := Except.error.inj h
    obtain ⟨rfl, hhome⟩ := location_eq_error_iff.mp hl
    exact .homeless hhome
  | ok path =>
    rw [load_of_location hl] at h
    cases hm : gather s path.toText with
    | error e' =>
      rw [hm] at h
      obtain rfl : e' = e := Except.error.inj h
      exact fails_of_fileMembers hl (fileMembers_of_gather hm)
    | ok members =>
      rw [hm] at h
      change (ofLayer _).mapError _ = _ at h
      cases hr : ofLayer (layerOf members) with
      | error rejections =>
        rw [hr] at h
        cases h
        exact .rejected hl hm hr
      | ok config =>
        rw [hr] at h
        cases h

/-! ## Room for what is nested -/

/-- Values are nested at most 300 deep in the file, and there is room for that. -/
structure Shallow (s : Sources) : Prop where
  room : Json.ampleRoom ≤ s.room
  content : ∀ path t, Decoded s path t → Json.Shallow t

theorem Shallow.fileMembers_eq (hs : Shallow s) {room : Nat} (hroom : Json.ampleRoom ≤ room)
    (hl : location s = .ok path) :
    fileMembers { s with room } path.toText = fileMembers s path.toText := by
  unfold fileMembers
  dsimp only
  cases hf : s.files path.toText with
  | error e => rfl
  | ok bytes =>
    dsimp only
    cases hd : Utf8.defect? bytes with
    | some d => rw [membersOf_of_defect hd, membersOf_of_defect hd]
    | none =>
      have ht := hs.content path _ ⟨bytes, ⟨hl, hf⟩, hd, rfl⟩
      rw [membersOf_of_no_defect hd, membersOf_of_no_defect hd, ht.ofText_eq hroom,
        ht.ofText_eq hs.room]

/-- **With a file that is shallow it makes no difference how much room there is beyond that.** -/
theorem Shallow.load_eq (hs : Shallow s) {room : Nat} (hroom : Json.ampleRoom ≤ room) :
    load { s with room } = load s := by
  cases hl : location s with
  | error e =>
    have hl' : location { s with room } = .error e := hl
    rw [load, load, hl, hl']
    rfl
  | ok path =>
    have hl' : location { s with room } = .ok path := hl
    rw [load_of_location hl', load_of_location hl, gather, gather, hs.fileMembers_eq hroom hl]

/-! ## Fair sources -/

/-- The home of the file is known, and there is room for what is nested in it; and the file, if it
can be read, is UTF-8 and modest. -/
structure Fair (s : Sources) : Prop where
  home : ¬ (Path.ofText (placed s.environment)).Homeless (homeOf s)
  room : Json.ampleRoom ≤ s.room
  content : ∀ path bytes, Opened s path bytes →
    Utf8.defect? bytes = none ∧ Json.Modest (unixLines (.ofBytes bytes))

theorem Fair.shallow (hs : Fair s) : Shallow s where
  room := hs.room
  content := by
    rintro path t ⟨bytes, ho, -, rfl⟩
    exact (hs.content path bytes ho).2.shallow

theorem Fair.malformed_of_error (hs : Fair s) (ht : Decoded s path t) {error : Json.Error}
    (hv : Value.ofText t s.room = .error error) :
    ∃ cause place, error = .malformed cause place := by
  obtain ⟨bytes, ho, -, rfl⟩ := ht
  exact (hs.content path bytes ho).2.of_error hs.room hv

/-- With fair sources nothing goes wrong but that the configuration is bad. -/
theorem Fails.bad_of_fair (h : Fails s e) (hs : Fair s) : ∃ b, e = .bad b := by
  cases h with
  | homeless hhome => exact absurd hhome hs.home
  | undecodable ho hd => cases hd.symm.trans (hs.content _ _ ho).1
  | tooManyDigits ht hv =>
    obtain ⟨_, _, heq⟩ := hs.malformed_of_error ht hv
    cases heq
  | tooDeep ht hv =>
    obtain ⟨_, _, heq⟩ := hs.malformed_of_error ht hv
    cases heq
  | unreadable | malformed | notObject | rejected => exact ⟨_, rfl⟩

end Config

/-! ## Runs -/

theorem Text.spell_concat_ne_nil (t : Text) : spell (t ++ [.lineFeed]) ≠ [] := by
  rw [spell, List.flatMap_append, List.flatMap_append]
  exact List.append_ne_nil_of_right_ne_nil _ (by decide)

namespace Invocation

variable {i : Invocation} {o : Options} {config : Config}

def loadingLog (i : Invocation) (o : Options) : Trace :=
  Trace.logged (if o.debug then .debug else .warning) ((Config.records (i.sources o)).map .log)

/-- The line that tells what is bad about a configuration. -/
def badLine (b : Config.Error) : Text := .ofString "Error: " ++ b.message ++ [.lineFeed]

theorem serve_eq (hf : i.canFork = true) : i.serve o =
    Action.emits ((Config.records (i.sources o)).map .log) >>= fun _ =>
      match Config.load (i.sources o) with
      | .ok config => session config
      | .error (.bad b) => complain (badLine b) >>= fun _ => pure 2
      | .error e => Action.raise (.load e) := by
  rw [serve, hf]
  rfl

theorem run_eq (ho : Options.ofArguments i.arguments = .ok o) (h : Host) : i.run h =
    { i.serve o h with
      trace := (i.serve o h).trace.logged (if o.debug then .debug else .warning) } := by
  rw [run, ho]
  rfl

theorem run_of_bad (ho : Options.ofArguments i.arguments = .ok o) (hf : i.canFork = true)
    {b : Config.Error} (hb : Config.load (i.sources o) = .error (.bad b)) (h : Host) :
    i.run h = ⟨.value 2, h.setPending .errors [],
      i.loadingLog o ++ [.write .shell .errors (h.pendingErrors ++ (badLine b).shown.utf8)]⟩ := by
  have hbytes : h.pending .errors ++ (badLine b).spell ≠ [] :=
    List.append_ne_nil_of_right_ne_nil _ (Text.spell_concat_ne_nil _)
  have hserve : i.serve o h = ⟨.value 2, h.setPending .errors [],
      (Config.records (i.sources o)).map .log ++
        [.write .shell .errors (h.pending .errors ++ (badLine b).spell)]⟩ := by
    rw [serve_eq hf, bind_of_value (emits_apply _ h), hb]
    dsimp only
    rw [complain, bind_of_value (writeBytes_flushes _ _ _ h), Event.writes_of_ne_nil hbytes]
    rfl
  rw [run_eq ho, hserve, Text.spell_eq]
  dsimp only
  rw [Trace.logged, List.flatMap_append]
  rfl

/-- What goes wrong with the settings and is no bad configuration is told by nobody. -/
theorem run_of_escape (ho : Options.ofArguments i.arguments = .ok o) (hf : i.canFork = true)
    {e : LoadError} (he : Config.load (i.sources o) = .error e) (hbad : ∀ b, e ≠ .bad b)
    (h : Host) : i.run h = ⟨.fault (.load e), h, i.loadingLog o⟩ := by
  have hserve : i.serve o h =
      ⟨.fault (.load e), h, (Config.records (i.sources o)).map .log⟩ := by
    rw [serve_eq hf, bind_of_value (emits_apply _ h), he]
    cases e with
    | bad b => exact absurd rfl (hbad b)
    | _ => exact congrArg (Result.mk _ _) (List.append_nil _)
  rw [run_eq ho, hserve]
  rfl

theorem run_of_session_fault {h : Host} {f : Fault} (hf : (session config h).ending = .fault f) :
    (Session.run { config } h).ending = .fault f := by
  rcases bind_eq_fault hf with hattempt | ⟨r, hattempt, hf⟩
  · rw [attempt_apply] at hattempt
    cases hr : (Session.run { config } h).ending with
    | value a | fault e | departure d =>
      rw [hr] at hattempt
      cases hattempt
  · cases r with
    | ok r => cases hf
    | error e =>
      cases e with
      | interrupted => cases hf
      | _ =>
        obtain rfl := Ending.fault.inj hf
        rw [attempt_apply] at hattempt
        cases hr : (Session.run { config } h).ending with
        | value a | departure d =>
          rw [hr] at hattempt
          cases hattempt
        | fault e =>
          rw [hr] at hattempt
          obtain rfl := Except.error.inj (Ending.value.inj hattempt)
          rfl

/-- With settings that were accepted a session is run, and nothing but the log is added to what it
does. -/
theorem run_of_load (ho : Options.ofArguments i.arguments = .ok o) (hf : i.canFork = true)
    (hload : Config.load (i.sources o) = .ok config) (h : Host) : i.run h =
      ⟨(session config h).ending, (session config h).host, i.loadingLog o ++
        (session config h).trace.logged (if o.debug then .debug else .warning)⟩ := by
  rw [run_eq ho, serve_eq hf, bind_of_value (emits_apply _ h), hload]
  dsimp only
  rw [Trace.logged, List.flatMap_append]
  rfl

/-- A session ends with an exit code of its own. -/
theorem session_of_value {config : Config} {h : Host} {code : Nat}
    (hv : (session config h).ending = .value code) : code = 0 ∨ code = 130 := by
  obtain ⟨r, -, hv, -⟩ := bind_eq_value hv
  cases r with
  | ok r =>
    obtain ⟨_, -, hv, -⟩ := bind_eq_value hv
    exact Or.inl (Ending.value.inj hv).symm
  | error f =>
    cases f with
    | interrupted =>
      obtain ⟨_, -, hv, -⟩ := bind_eq_value hv
      exact Or.inr (Ending.value.inj hv).symm
    | _ => cases hv

/-- The exit code 2 is that of a bad configuration. -/
theorem run_eq_two_iff (ho : Options.ofArguments i.arguments = .ok o) (hf : i.canFork = true)
    (h : Host) : (i.run h).ending = .value 2 ↔
      ∃ b, Config.load (i.sources o) = .error (.bad b) := by
  cases hl : Config.load (i.sources o) with
  | ok config =>
    refine ⟨?_, nofun⟩
    intro htwo
    rw [run_eq ho, serve_eq hf] at htwo
    obtain ⟨_, -, hsession, -⟩ := bind_eq_value htwo
    rw [hl] at hsession
    rcases session_of_value hsession with h | h <;> cases h
  | error e =>
    cases e with
    | bad b =>
      rw [run_of_bad ho hf hl]
      exact ⟨fun _ => ⟨b, rfl⟩, fun _ => rfl⟩
    | _ =>
      rw [run_of_escape ho hf hl nofun]
      exact ⟨nofun, nofun⟩

end Invocation

namespace Config

/-- **Settings are not loaded just where something goes wrong**, and from fair sources nothing goes
wrong but that the configuration is bad.

How much room there is for values that are nested depends on what is running already; it makes no
difference to a file in which they are nested at most 300 deep.  With such a file a run tells a bad
configuration in a line and does nothing else, and its exit code is 2.  The line is written as
UTF-8, with surrogates spelled out.  Only a bad configuration has that code: with anything else that
goes wrong the run ends in a fault, and tells nothing. -/
theorem load_escapes (s : Sources) : (∀ e, load s = .error e ↔ Fails s e) ∧
    (Fair s → (∃ config, load s = .ok config) ∨ ∃ b, load s = .error (.bad b)) ∧
    (Shallow s → ∀ room, Json.ampleRoom ≤ room → load { s with room } = load s) ∧
    ∀ (i : Invocation) (o : Options) (host : Host), Options.ofArguments i.arguments = .ok o →
      i.canFork = true → i.sources o = s → Shallow s →
      (∀ b, Fails s (.bad b) →
        Text.ofUtf8 (Invocation.badLine b).shown.utf8 = .ok (Invocation.badLine b).shown ∧
        i.run host = ⟨.value 2, host.setPending .errors [], i.loadingLog o ++
          [.write .shell .errors (host.pendingErrors ++ (Invocation.badLine b).shown.utf8)]⟩) ∧
      (∀ e, Fails s e → (∀ b, e ≠ .bad b) →
        i.run host = ⟨.fault (.load e), host, i.loadingLog o⟩) ∧
      ((i.run host).ending = .value 2 ↔ ∃ b, Fails s (.bad b)) := by
  refine ⟨fun e => load_eq_error_iff, ?_, fun hs room => hs.load_eq, ?_⟩
  · intro hs
    cases hl : load s with
    | ok config => exact Or.inl ⟨config, rfl⟩
    | error e =>
      obtain ⟨b, rfl⟩ := (load_eq_error_iff.mp hl).bad_of_fair hs
      exact Or.inr ⟨b, rfl⟩
  · rintro i o host ho hf rfl -
    refine ⟨?_, ?_, ?_⟩
    · intro b hb
      exact ⟨Text.ofUtf8_shown _, Invocation.run_of_bad ho hf hb.load host⟩
    · intro e he hbad
      exact Invocation.run_of_escape ho hf he.load hbad host
    · rw [Invocation.run_eq_two_iff ho hf]
      exact exists_congr fun b => load_eq_error_iff

/-- A file that holds no object is told, and a file that is no UTF-8 is not. -/
theorem load_escapes_of_array : ∃ (i j : Invocation) (o : Options) (d : Utf8.Defect),
    Options.ofArguments i.arguments = .ok o ∧ i.canFork = true ∧ Fair (i.sources o) ∧
    (i.run {}).ending = .value 2 ∧ (i.run {}).trace = [.write .shell .errors
      (Text.bytes "Error: /h/.labsh/config.json must contain a JSON object\n")] ∧
    Options.ofArguments j.arguments = .ok o ∧ j.canFork = true ∧
    Fails (j.sources o) (.undecodable d) ∧
    (j.run {}).ending = .fault (.load (.undecodable d)) := by
  let i : Invocation := {
    arguments := []
    environment := fun _ => none
    files := fun _ => .ok (Text.bytes "[]")
    defaultFile := fileIn (.ofString "/h") }
  let j : Invocation := { i with files := fun _ => .ok [0x5B, 0xC3] }
  have ho : Options.ofArguments i.arguments = .ok {} := rfl
  have hopened : Opened (i.sources {}) i.defaultFile (Text.bytes "[]") := ⟨rfl, rfl⟩
  have hdefect : Utf8.defect? (Text.bytes "[]") = none := by with_unfolding_all exact rfl
  have htext : .ofString "[]" = unixLines (.ofBytes (Text.bytes "[]")) := by
    with_unfolding_all exact rfl
  have hvalue : Value.ofText (.ofString "[]") = .ok (.array []) := by with_unfolding_all exact rfl
  have hbad : Fails (i.sources {}) (.bad (.notObject i.defaultFile.toText)) :=
    .notObject ⟨_, hopened, hdefect, htext⟩ hvalue nofun
  have hfair : Fair (i.sources {}) := by
    refine ⟨?_, by decide, ?_⟩
    · rintro ⟨-, _, _, hparts, -⟩
      cases hparts
    · intro path bytes h
      obtain rfl : Text.bytes "[]" = bytes := Except.ok.inj h.content
      exact ⟨hdefect, htext ▸ .of_length (by decide)⟩
  have hdefect' : Utf8.defect? [0x5B, 0xC3] = some ⟨1, [0xC3], .endOfData⟩ := by
    with_unfolding_all exact rfl
  have hescape : Fails (j.sources {}) (.undecodable ⟨1, [0xC3], .endOfData⟩) :=
    .undecodable ⟨rfl, rfl⟩ hdefect'
  have hshallow : Shallow (j.sources {}) := by
    refine ⟨by decide, ?_⟩
    rintro path t ⟨bytes, h, hd, -⟩
    obtain rfl : [0x5B, 0xC3] = bytes := Except.ok.inj h.content
    cases hdefect'.symm.trans hd
  obtain ⟨htold, -, -⟩ := (load_escapes (i.sources {})).2.2.2 i {} {} ho rfl rfl hfair.shallow
  obtain ⟨-, huntold, -⟩ := (load_escapes (j.sources {})).2.2.2 j {} {} ho rfl rfl hshallow
  obtain ⟨-, hrun⟩ := htold _ hbad
  have hline : (i.run {}).trace = [.write .shell .errors
      (Text.bytes "Error: /h/.labsh/config.json must contain a JSON object\n")] := by
    rw [hrun]
    with_unfolding_all exact rfl
  exact ⟨i, j, {}, _, ho, rfl, hfair, congrArg Result.ending hrun, hline, ho, rfl, hescape,
    congrArg Result.ending (huntold _ hescape nofun)⟩

/-- **A file that is no UTF-8 is bad, and yet no bad configuration**: a run ends with that in a
fault, and nobody is told. -/
theorem no_utf8_unwinds : ∃ (i : Invocation) (o : Options) (d : Utf8.Defect),
    Options.ofArguments i.arguments = .ok o ∧ i.canFork = true ∧
    (location (i.sources o)).map Path.toText = .ok (.ofString "/home/user/.labsh/config.json") ∧
    i.files (.ofString "/home/user/.labsh/config.json") = .ok [0xFF] ∧
    load (i.sources o) = .error (.undecodable d) ∧
    d.message = .ofString "'utf-8' codec can't decode byte 0xff in position 0: invalid start byte" ∧
    i.run {} = ⟨.fault (.load (.undecodable d)), {}, []⟩ := by
  let i : Invocation := {
    arguments := []
    environment := fun _ => none
    files := fun _ => .ok [0xFF]
    defaultFile := fileIn (.ofString "/home/user") }
  have ho : Options.ofArguments i.arguments = .ok {} := rfl
  have hdefect : Utf8.defect? [0xFF] = some ⟨0, [0xFF], .badStart⟩ := by
    with_unfolding_all exact rfl
  have hload : load (i.sources {}) = .error (.undecodable ⟨0, [0xFF], .badStart⟩) :=
    (Fails.undecodable ⟨rfl, rfl⟩ hdefect).load
  refine ⟨i, {}, _, ho, rfl, rfl, rfl, hload, rfl, ?_⟩
  rw [Invocation.run_of_escape ho rfl hload nofun]
  with_unfolding_all exact rfl

end Config

end LineShell
