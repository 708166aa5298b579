import LineShell.Proofs.Endings
import LineShell.Proofs.Escapes
import LineShell.Proofs.Transparency

/-!
# Banners and prompts that cannot be shown

A text setting takes any text, but not every text has bytes: a file may spell a surrogate that is no
escape.  Such a banner or prompt is accepted, and the run ends when it is to be written.

* `Config.Showable`: the banner and the prompt have bytes.
* `Config.showable_iff`, `Config.source_of_unencodable`: a banner and a prompt are shown as the
  layers give them, and only a file or what is given for the run gives a text without bytes.
* `Session.unencodable_of_run`: what cannot be written though the banner and the prompt can.
* `Session.run_of_not_showable`: a run whose banner or prompt cannot be written.
* `Config.load_showable`: what it means for a run that its settings were accepted.
* `Config.surrogate_accepted`: a prompt that is accepted and cannot be written.
-/

namespace LineShell

open Json (Value Members)
open LineShell.Action

/-! ## Where texts come from -/

def Field.isShown : Field → Bool
  | .banner | .prompt => true
  | _ => false

namespace Config

variable {s : Sources} {path : Path} {config : Config} {field : Field} {file t : Text}

structure Showable (config : Config) : Prop where
  banner : config.banner.Encodable
  prompt : config.prompt.Encodable

theorem value_of_settled {layer : Layer} {v : Value} (hfield : field.isShown = true)
    (hs : settled layer field = .ok v) :
    layer field = some v ∨ layer field = none ∧ v = value {} field := by
  unfold settled at hs
  cases hw : layer field with
  | none =>
    rw [hw] at hs
    exact Or.inr ⟨rfl, (Except.ok.inj hs).symm⟩
  | some w =>
    rw [hw] at hs
    left
    cases field with
    | lineLimit | echo | reportStatus => cases hfield
    | banner | prompt =>
      cases w with
      | string t => exact congrArg some (Except.ok.inj hs)
      | _ => cases hs

/-- **A banner and a prompt have bytes iff the texts have that win for them**: accepting them
changes and refuses none. -/
theorem showable_iff (hload : load s = .ok config) (hpath : location s = .ok path)
    (hfile : Readable s path.toText) : config.Showable ↔ ∀ field t, field.isShown = true →
      winner s path.toText field = some (.string t) → t.Encodable := by
  have hsettled : ∀ field, settled (winner s path.toText) field = .ok (config.value field) := by
    rw [load_eq hpath hfile] at hload
    cases hw : ofLayer (winner s path.toText) with
    | ok config' =>
      rw [hw] at hload
      obtain rfl := Except.ok.inj hload
      exact ofLayer_eq_ok_iff.mp hw
    | error rs =>
      rw [hw] at hload
      cases hload
  have hbanner := value_of_settled rfl (hsettled .banner)
  have hprompt := value_of_settled rfl (hsettled .prompt)
  constructor
  · rintro ⟨hb, hp⟩ field t hfield hw
    cases field with
    | lineLimit | echo | reportStatus => cases hfield
    | banner =>
      rcases hbanner with h | ⟨h, -⟩
      · cases hw.symm.trans h
        exact hb
      · cases hw.symm.trans h
    | prompt =>
      rcases hprompt with h | ⟨h, -⟩
      · cases hw.symm.trans h
        exact hp
      · cases hw.symm.trans h
  · intro hall
    constructor
    · rcases hbanner with h | ⟨-, h⟩
      · exact hall .banner _ rfl h
      · rw [Value.string.inj h]
        exact Text.encodable_ofString _
    · rcases hprompt with h | ⟨-, h⟩
      · exact hall .prompt _ rfl h
      · rw [Value.string.inj h]
        exact Text.encodable_ofString _

/-- **The environment gives no text without bytes.** -/
theorem source_of_unencodable (hw : winner s file field = some (.string t)) (ht : ¬ t.Encodable) :
    (withoutNulls s.given).last? field.key = some (.string t) ∨
      s.environment (variableOf field) = none ∧
      (written s file).last? field.key = some (.string t) := by
  unfold winner at hw
  cases hgiven : (withoutNulls s.given).last? field.key with
  | some v =>
    rw [hgiven] at hw
    exact Or.inl hw
  | none =>
    rw [hgiven, Option.none_or, environmentLayer] at hw
    right
    cases henv : s.environment (variableOf field) with
    | some bytes =>
      rw [henv] at hw
      obtain rfl := Value.string.inj (Option.some.inj hw)
      exact absurd (Text.encodable_ofBytes bytes) ht
    | none =>
      rw [henv] at hw
      exact ⟨rfl, hw⟩

end Config

/-! ## Runs -/

/-- Whatever is done, no fork has an answer that it did not have before. -/
theorem Action.forks_rule : Rule fun h x => (x h).host.forks ⊆ h.forks where
  pure h _ := List.Subset.refl h.forks
  bind := by
    intro α β h x f hx hf
    rw [bind_apply]
    cases hr : (x h).ending with
    | value a => exact List.Subset.trans (hf a hr) hx
    | fault e => exact hx
    | departure d => exact hx
  emits h _ _ := List.Subset.refl h.forks
  raise h _ := List.Subset.refl h.forks
  depart h _ := List.Subset.refl h.forks
  attempt hx := hx
  departing hx := hx
  buffer h s _ := by cases s <;> exact List.Subset.refl h.forks
  flush h _ s := by cases s <;> exact List.Subset.refl h.forks
  takeInput h a q := by
    rw [takeInput_apply]
    exact List.Subset.refl h.forks
  nextReply h := by
    rw [nextReply_apply]
    exact h.forks_answered
  exec h path := by
    rw [exec_apply]
    exact List.Subset.refl h.forks

theorem Host.mem_forks_of_answer {h : Host} {e : SystemError} (ha : h.answer = .error e) :
    .failure e ∈ h.forks := by
  unfold answer at ha
  split at ha
  · cases ha
  · rename_i heq
    cases ha
    exact heq ▸ List.mem_cons_self
  · cases ha

theorem Line.read_ne_unencodable {limit : Int} (hl : 2 ≤ limit) (h : Host)
    (place : Utf8.Unencodable) : (Line.read limit h).ending ≠ .fault (.unencodable place) := by
  intro hread
  cases hf : (h.input.take (.lineWithin (room limit))).stop.fault? with
  | some f =>
    rw [read_of_fault hl hf] at hread
    obtain rfl := Ending.fault.inj hread
    rcases Input.Stop.of_fault? hf with ⟨-, hf⟩ | ⟨e, -, hf⟩ <;> cases hf
  | none =>
    by_cases hb : (h.input.take (.lineWithin (room limit))).bytes = []
    · rw [read_of_empty hl hf hb] at hread
      cases hread
    · rw [read_of_bytes hl hf hb] at hread
      cases hread

namespace Session

variable {session : Session} {host h : Host} {n : Nat} {t : Trace}

theorem Reaches.rounds_of_fault (hr : session.Reaches host n t h) {report : Report} {f : Fault}
    (hf : (rounds session.config report h).ending = .fault f) :
    ∃ n' t' h', session.Reaches host n' t' h' ∧ (round session.config h').ending = .fault f := by
  induction hk : h.input.length using Nat.strong_induction_on generalizing h n t report with
  | _ k ih =>
    rw [rounds_eq] at hf
    rcases bind_eq_fault hf with hround | ⟨o, ho, hf⟩
    · exact ⟨n, t, h, hr, hround⟩
    · cases o with
      | none => cases hf
      | some outcome => exact ih _ (hk ▸ length_input_round ho) (hr.next ho) hf rfl

theorem Reaches.forks (hr : session.Reaches host n t h) : h.forks ⊆ host.forks := by
  induction hr with
  | start => exact forks_rule.showBanner host session.config
  | next _ _ ih => exact List.Subset.trans (forks_rule.round _ session.config) ih

/-- In a round whose prompt can be written, only the refusal of a child cannot. -/
theorem forks_of_unencodable_round {config : Config} (hprompt : config.prompt.Encodable)
    {place : Utf8.Unencodable} (hf : (round config h).ending = .fault (.unencodable place)) :
    ∃ e, .failure e ∈ h.forks ∧ ¬ e.message.Encodable := by
  rw [round_eq] at hf
  have hask := ask_apply hprompt h
  rcases bind_eq_fault hf with hread | ⟨reading, -, hf⟩
  · rw [hask] at hread
    exact absurd hread (Line.read_ne_unencodable config.two_le_lineLimit _ place)
  · cases reading with
    | endOfStream => cases hf
    | line line =>
      dsimp only at hf
      rw [map_eq_pure_bind] at hf
      rcases bind_eq_fault hf with hdispatch | ⟨outcome, -, hf⟩
      · obtain ⟨e, ha, he⟩ := answer_of_unencodable hdispatch
        have hforks : (ask config h).host.forks ⊆ h.forks :=
          forks_rule.bind (forks_rule.write h _ _ _) fun _ _ => forks_rule.read _ _
        exact ⟨e, hforks (Host.mem_forks_of_answer ha), he⟩
      · cases hf

/-- **If the banner and the prompt can be written, only the refusal of a child cannot.** -/
theorem unencodable_of_run (hs : session.config.Showable) {place : Utf8.Unencodable}
    (hf : (session.run host).ending = .fault (.unencodable place)) :
    ∃ e, .failure e ∈ host.forks ∧ ¬ e.message.Encodable := by
  have hbanner := showBanner_of_encodable hs.banner host
  cases hrunning : session.running with
  | true =>
    rw [run_eq hrunning, bind_of_ending hbanner] at hf
    rcases bind_eq_fault hf with hrounds | ⟨report, -, hf⟩
    · obtain ⟨n, t, h, hr, hround⟩ := (Reaches.start hrunning hbanner).rounds_of_fault hrounds
      obtain ⟨e, he, hmessage⟩ := forks_of_unencodable_round hs.prompt hround
      exact ⟨e, hr.forks he, hmessage⟩
    · cases hf
  | false =>
    rw [run_eq_of_not_running hrunning, bind_of_ending hbanner] at hf
    cases hf

/-- **If the banner or the prompt cannot be written, a run ends there**: at once, or behind its
banner. -/
theorem run_of_not_showable {config : Config} (hs : ¬ config.Showable) (host : Host) :
    ∃ place, run { config } host = ⟨.fault (.unencodable place), (showBanner config host).host,
      (showBanner config host).trace⟩ := by
  rw [run_eq rfl]
  by_cases hb : config.banner.Encodable
  · have hp : ¬ config.prompt.Encodable := fun hp => hs ⟨hb, hp⟩
    have hbanner := showBanner_of_encodable hb host
    obtain ⟨place, hwrite⟩ :=
      write_of_not_encodable (h := (showBanner config host).host) hp .shell .output
    have hrounds : rounds config {} (showBanner config host).host =
        ⟨.fault (.unencodable place), (showBanner config host).host, []⟩ := by
      rw [rounds_eq]
      exact bind_of_fault (bind_of_fault hwrite)
    refine ⟨place, ?_⟩
    rw [bind_of_ending hbanner, bind_of_fault hrounds, List.append_nil]
  · obtain ⟨place, hbanner⟩ := showBanner_of_not_encodable hb host
    refine ⟨place, ?_⟩
    rw [bind_of_fault hbanner, hbanner]

/-- Banners take nothing of the input. -/
theorem input_showBanner (config : Config) (h : Host) :
    (showBanner config h).host.input = h.input := by
  by_cases hb : config.banner.Encodable
  · rw [showBanner_flushes hb]
    split
    · rfl
    · exact Host.input_setPending _ _ _
  · obtain ⟨place, hbanner⟩ := showBanner_of_not_encodable hb h
    rw [hbanner]

end Session

namespace Invocation

variable {i : Invocation} {o : Options} {config : Config}

theorem session_of_not_showable (hs : ¬ config.Showable) (h : Host) :
    ∃ place, session config h = ⟨.fault (.unencodable place),
      (Session.showBanner config h).host, (Session.showBanner config h).trace⟩ := by
  obtain ⟨place, hrun⟩ := Session.run_of_not_showable hs h
  refine ⟨place, ?_⟩
  have hattempt : (Session.run { config }).attempt h =
      ⟨.value (.error (.unencodable place)), (Session.showBanner config h).host,
        (Session.showBanner config h).trace⟩ := by
    rw [attempt_apply, hrun]
  rw [session, bind_of_value hattempt]
  exact congrArg (Result.mk _ _) (List.append_nil _)

theorem logged_showBanner (least : Level) (h : Host) :
    (Session.showBanner config h).trace.logged least = (Session.showBanner config h).trace := by
  by_cases hb : config.banner.Encodable
  · rw [Session.showBanner_flushes hb]
    split
    · rfl
    · dsimp only
      unfold Event.writes
      split <;> rfl
  · obtain ⟨place, hbanner⟩ := Session.showBanner_of_not_encodable hb h
    rw [hbanner]
    rfl

end Invocation

namespace Config

/-- **That settings are accepted does not mean that they can be shown.**

A banner and a prompt can be written iff the texts can that win for them.  A text that cannot be
written is no reason to refuse it; the environment gives none, but a file may, and what is given for
the run.

If banner and prompt can be written, whatever else a run cannot write is the refusal of a child.
Otherwise every run ends there, in a fault and with no exit code of its own: it has written no more
than its banner, and it leaves the input alone. -/
theorem load_showable {s : Sources} {config : Config} (hload : load s = .ok config) :
    (∃ path, location s = .ok path ∧
      (config.Showable ↔ ∀ field t, field.isShown = true →
        winner s path.toText field = some (.string t) → t.Encodable) ∧
      ∀ field t, winner s path.toText field = some (.string t) → ¬ t.Encodable →
        (withoutNulls s.given).last? field.key = some (.string t) ∨
        s.environment (variableOf field) = none ∧
        (written s path.toText).last? field.key = some (.string t)) ∧
    (∀ host, (config.Showable → ∀ place,
        (Session.run { config } host).ending = .fault (.unencodable place) →
        ∃ e, .failure e ∈ host.forks ∧ ¬ e.message.Encodable) ∧
      (¬ config.Showable → ∃ place, Session.run { config } host =
        ⟨.fault (.unencodable place), (Session.showBanner config host).host,
          (Session.showBanner config host).trace⟩) ∧
      (Session.showBanner config host).host.input = host.input) ∧
    ∀ (i : Invocation) (o : Options) (host : Host), Options.ofArguments i.arguments = .ok o →
      i.canFork = true → i.sources o = s →
      (config.Showable → ∀ place, (i.run host).ending = .fault (.unencodable place) →
        ∃ e, .failure e ∈ host.forks ∧ ¬ e.message.Encodable) ∧
      (¬ config.Showable → ∃ place, i.run host =
        ⟨.fault (.unencodable place), (Session.showBanner config host).host,
          i.loadingLog o ++ (Session.showBanner config host).trace⟩) := by
  refine ⟨?_, ?_, ?_⟩
  · obtain ⟨path, hpath, hfile⟩ := readable_of_load hload
    exact ⟨path, hpath, showable_iff hload hpath hfile, fun field t => source_of_unencodable⟩
  · intro host
    refine ⟨fun hs place => Session.unencodable_of_run hs, ?_, Session.input_showBanner config host⟩
    intro hs
    exact Session.run_of_not_showable hs host
  · rintro i o host ho hf rfl
    have hrun := Invocation.run_of_load ho hf hload host
    constructor
    · intro hs place hend
      rw [hrun] at hend
      exact Session.unencodable_of_run hs (Invocation.run_of_session_fault hend)
    · intro hs
      obtain ⟨place, hsession⟩ := Invocation.session_of_not_showable hs host
      refine ⟨place, ?_⟩
      rw [hrun, hsession]
      dsimp only
      rw [Invocation.logged_showBanner]

/-- A file spells half a character as its prompt.  With a prompt in the environment, which is not
even UTF-8, it does no harm; without one it ends the run behind the banner. -/
theorem load_showable_of_half_character : ∃ (s : Sources) (i : Invocation)
    (config config' : Config) (place : Utf8.Unencodable),
    s.files = i.files ∧ s.environment "LABSH_PROMPT" = some [0xFF] ∧
    load s = .ok config ∧
    (∀ place, (Session.run { config } {}).ending ≠ .fault (.unencodable place)) ∧
    (∀ file, i.files file = .ok (Text.bytes "\x7b\"prompt\":\"\\ud83d\"\x7d")) ∧
    load (i.sources {}) = .ok config' ∧ ¬ config'.Showable ∧ i.run {} =
      ⟨.fault (.unencodable place), {},
        [.write .shell .output (Text.bytes "Running Shell...\n")]⟩ := by
  let file := Text.bytes "\x7b\"prompt\":\"\\ud83d\"\x7d"
  let i : Invocation := {
    arguments := []
    environment := fun _ => none
    files := fun _ => .ok file
    defaultFile := fileIn (.ofString "/h") }
  let s : Sources := { i.sources {} with
    environment := fun name => if name = "LABSH_PROMPT" then some [0xFF] else none }
  let config : Config := { prompt := .ofBytes [0xFF] }
  let config' : Config := { prompt := [0xD83D] }
  have hload : load s = .ok config := by with_unfolding_all exact rfl
  have hload' : load (i.sources {}) = .ok config' := by with_unfolding_all exact rfl
  have hs : config.Showable := ⟨Text.encodable_ofString _, Text.encodable_ofBytes _⟩
  have hshown : ∀ place, (Session.run { config } {}).ending ≠ .fault (.unencodable place) := by
    intro place hend
    obtain ⟨e, he, -⟩ := ((load_showable hload).2.1 {}).1 hs place hend
    cases he
  have hs' : ¬ config'.Showable := fun hs => absurd (hs.prompt _ List.mem_cons_self) (by decide)
  obtain ⟨place, hrun⟩ := ((load_showable hload').2.2 i {} {} rfl rfl rfl).2 hs'
  have hbanner : Session.showBanner config' {} = ⟨.value (), {},
      [.write .shell .output (Text.bytes "Running Shell...\n")]⟩ := by
    with_unfolding_all exact rfl
  have hlog : i.loadingLog {} = [] := by with_unfolding_all exact rfl
  rw [hbanner, hlog] at hrun
  exact ⟨s, i, config, config', place, rfl, rfl, hload, hshown, fun _ => rfl, hload', hs', hrun⟩

/-- **A prompt that is accepted and cannot be written**: the file spells a surrogate, no setting is
refused, and the run ends behind the banner with an error of encoding. -/
theorem surrogate_accepted : ∃ (i : Invocation) (o : Options) (config : Config)
    (place : Utf8.Unencodable),
    Options.ofArguments i.arguments = .ok o ∧ i.canFork = true ∧
    (location (i.sources o)).map Path.toText = .ok (.ofString "/home/user/.labsh/config.json") ∧
    i.files (.ofString "/home/user/.labsh/config.json") =
      .ok (Text.bytes "\x7b\"prompt\": \"\\ud800\"\x7d") ∧
    load (i.sources o) = .ok config ∧ ¬ config.prompt.Encodable ∧
    (i.run {}).ending = .fault (.unencodable place) := by
  let i : Invocation := {
    arguments := []
    environment := fun _ => none
    files := fun _ => .ok (Text.bytes "\x7b\"prompt\": \"\\ud800\"\x7d")
    defaultFile := fileIn (.ofString "/home/user") }
  let config : Config := { prompt := [0xD800] }
  have hload : load (i.sources {}) = .ok config := by with_unfolding_all exact rfl
  have hp : ¬ config.prompt.Encodable := fun hp => absurd (hp _ List.mem_cons_self) (by decide)
  obtain ⟨place, hsession⟩ := Invocation.session_of_not_showable (fun hs => hp hs.prompt) {}
  refine ⟨i, {}, config, place, rfl, rfl, rfl, rfl, hload, hp, ?_⟩
  rw [Invocation.run_of_load rfl rfl hload, hsession]

end Config

end LineShell
