import LineShell.Proofs.Command
import LineShell.Proofs.SharedInput

/-!
# How a run ends

A run should end with its input, or because the user interrupts it.  Whatever becomes of one
command, the next is read; but a wait that fails is not caught, and the run ends there.

* `Host.Tame`: no read fails, and the shell can say what it is told.
* `Ending.Accounted`: how something may end on a tame host.
* `Action.Tamely`: an action ends so, and leaves a tame host.
* `Session.run_of_value`: where a run is that ends with a value.
* `Session.run_ends`: how a run ends, and which commands it survives.
* `Session.lost_wait_unwinds`: a run that a wait ends.
-/

namespace LineShell

open LineShell.Action

/-- No read of the input fails, the refusal of a child can be told, and the statuses of programs are
those of processes that ended. -/
structure Host.Tame (h : Host) : Prop where
  reads : ∀ e, .failure e ∉ h.input
  forks : ∀ e, .failure e ∈ h.forks → e.message.Encodable
  statuses : ∀ path image status, Program.launch? h.programs path = .ok image →
    image.ending = .ok status → ∃ code, WaitStatus.exitCode status = .ok code

theorem Program.mem_of_launch? {programs : List Program} {path : Bytes} {image : Image}
    (hl : launch? programs path = .ok image) :
    ∃ program ∈ programs, program.launch = .ok image := by
  unfold launch? at hl
  split at hl
  · cases hl
  split at hl
  · cases hl
  split at hl
  · rename_i program hfind
    exact ⟨program, List.mem_reverse.mp (List.mem_of_find?_eq_some hfind), hl⟩
  · cases hl

namespace Host.Tame

variable {h h' : Host}

theorem of_subset (ht : h.Tame) (hi : h'.input ⊆ h.input) (hf : h'.forks ⊆ h.forks)
    (hp : h'.programs = h.programs) : h'.Tame where
  reads e he := ht.reads e (hi he)
  forks e he := ht.forks e (hf he)
  statuses := hp ▸ ht.statuses

theorem fault? (ht : h.Tame) {q : Quota} {f : Fault} (hf : (h.input.take q).stop.fault? = some f) :
    (h.input.take q).stop = .interrupt ∧ f = .interrupted := by
  rcases Input.Stop.of_fault? hf with hf | ⟨e, hs, -⟩
  · exact hf
  · have hmem : .failure e ∈ (h.input.take q).stop.mark := by
      rw [hs]
      exact List.mem_singleton_self _
    rcases List.mem_append.mp (Input.mem_ended_of_mem_mark hmem) with he | he
    · exact absurd he (ht.reads e)
    · cases List.mem_singleton.mp he

theorem encodable_of_answer (ht : h.Tame) {e : SystemError} (ha : h.answer = .error e) :
    e.message.Encodable := by
  unfold answer at ha
  split at ha
  · cases ha
  · rename_i heq
    cases ha
    exact ht.forks _ (heq ▸ List.mem_cons_self)
  · cases ha

end Host.Tame

theorem Host.forks_answered (h : Host) : h.answered.forks ⊆ h.forks := by
  have htail : ∀ {reply forks}, h.forks = reply :: forks → forks ⊆ h.forks := by
    intro reply forks heq
    exact heq ▸ List.subset_cons_self reply forks
  unfold answered
  split
  · exact htail ‹_›
  · exact htail ‹_›
  · exact htail ‹_›
  · exact List.Subset.refl _

theorem Action.tame_rule : Rule fun h x =>
    h.Tame → (x h).host.Tame ∧ (x h).host.programs = h.programs where
  pure _ _ ht := ⟨ht, rfl⟩
  bind := by
    intro α β h x f hx hf ht
    obtain ⟨ht', hp'⟩ := hx ht
    rw [bind_apply]
    cases hr : (x h).ending with
    | value a =>
      obtain ⟨ht₂, hp₂⟩ := hf a hr ht'
      exact ⟨ht₂, hp₂.trans hp'⟩
    | fault e => exact ⟨ht', hp'⟩
    | departure d => exact ⟨ht', hp'⟩
  emits _ _ _ ht := ⟨ht, rfl⟩
  raise _ _ ht := ⟨ht, rfl⟩
  depart _ _ ht := ⟨ht, rfl⟩
  attempt hx := hx
  departing hx := hx
  buffer _ s _ ht := by cases s <;> exact ⟨⟨ht.reads, ht.forks, ht.statuses⟩, rfl⟩
  flush _ _ s ht := by cases s <;> exact ⟨⟨ht.reads, ht.forks, ht.statuses⟩, rfl⟩
  takeInput h a q ht := by
    rw [takeInput_apply]
    exact ⟨ht.of_subset (Input.rest_suffix q h.input).subset (List.Subset.refl _) rfl, rfl⟩
  nextReply h ht := by
    rw [nextReply_apply]
    refine ⟨ht.of_subset ?_ ?_ h.programs_answered, h.programs_answered⟩
    · rw [h.input_answered]
      exact List.Subset.refl _
    · exact h.forks_answered
  exec h path ht := by
    rw [exec_apply]
    exact ⟨ht, rfl⟩

/-! ## Endings -/

/-- How something may end on a tame host: with a value, or for a reason that its trace tells. -/
inductive Ending.Accounted (programs : List Program) (t : Trace) : Ending α → Prop
  | value (a : α) : Accounted programs t (.value a)
  /-- The last thing is a read that is interrupted. -/
  | interrupted {a : Actor} {bytes : Bytes} :
      t.getLast? = some (.read a bytes .interrupt) → Accounted programs t (.fault .interrupted)
  /-- The last thing is the wait for a program, and it fails. -/
  | lost {path : Bytes} {image : Image} {e : SystemError} {pid : Int} :
      Program.launch? programs path = .ok image → image.ending = .error e →
      .exec path [path] ∈ t → t.getLast? = some (.waited pid) →
      Accounted programs t (.fault (.system e))
  /-- The process is one of the children. -/
  | departed {d : Departure} : .fork 0 ∈ t → Accounted programs t (.departure d)

namespace Ending.Accounted

variable {programs : List Program} {t u : Trace} {ending : Ending α}

theorem behind (h : Accounted programs u ending) (t : Trace) :
    Accounted programs (t ++ u) ending := by
  have hlast : ∀ e, u.getLast? = some e → (t ++ u).getLast? = some e := by
    intro e he
    rw [List.getLast?_append, he]
    rfl
  cases h with
  | value a => exact .value a
  | interrupted hu => exact .interrupted (hlast _ hu)
  | lost hl hend hexec hu => exact .lost hl hend (List.mem_append_right t hexec) (hlast _ hu)
  | departed hu => exact .departed (List.mem_append_right t hu)

theorem fault {f : Fault} (h : Accounted programs t (.fault f : Ending α)) :
    Accounted programs t (.fault f : Ending β) := by
  cases h with
  | interrupted ht => exact .interrupted ht
  | lost hl hend hexec ht => exact .lost hl hend hexec ht

theorem departure {d : Departure} (h : Accounted programs t (.departure d : Ending α)) :
    Accounted programs t (.departure d : Ending β) := by
  cases h with
  | departed ht => exact .departed ht

end Ending.Accounted

/-- On a tame host the action leaves one, with the same programs, and its trace accounts for its
end. -/
def Action.Tamely (h : Host) (x : Action α) : Prop :=
  h.Tame → ((x h).host.Tame ∧ (x h).host.programs = h.programs) ∧
    (x h).ending.Accounted h.programs (x h).trace

namespace Action.Tamely

variable {h : Host}

theorem of_value {x : Action α} {a : α}
    (hx : h.Tame → (x h).host.Tame ∧ (x h).host.programs = h.programs)
    (ha : (x h).ending = .value a) : Tamely h x := fun ht => ⟨hx ht, ha ▸ .value a⟩

theorem pure (a : α) : Tamely h (pure a : Action α) := .of_value (tame_rule.pure h a) rfl

theorem bind {x : Action α} {f : α → Action β} (hx : Tamely h x)
    (hf : ∀ a, (x h).ending = .value a → Tamely (x h).host (f a)) : Tamely h (x >>= f) := by
  intro ht
  obtain ⟨⟨ht', hp'⟩, hend⟩ := hx ht
  rw [bind_apply]
  cases hr : (x h).ending with
  | value a =>
    obtain ⟨⟨ht₂, hp₂⟩, hend₂⟩ := hf a hr ht'
    rw [hp'] at hp₂ hend₂
    exact ⟨⟨ht₂, hp₂⟩, hend₂.behind _⟩
  | fault e =>
    rw [hr] at hend
    exact ⟨⟨ht', hp'⟩, hend.fault⟩
  | departure d =>
    rw [hr] at hend
    exact ⟨⟨ht', hp'⟩, hend.departure⟩

theorem log (logger : String) (level : Level) (text : Text) :
    Tamely h (log logger level text) := .of_value (tame_rule.log h _ _ _) rfl

theorem write {text : Text} (he : text.Encodable) (a : Actor) (s : Stream) :
    Tamely h (write a s text) :=
  .of_value (tame_rule.write h _ _ _) (congrArg Result.ending (write_flushes he a s h))

theorem read {limit : Int} (hl : 2 ≤ limit) : Tamely h (Line.read limit) := by
  intro ht
  refine ⟨tame_rule.read h limit ht, ?_⟩
  cases hf : (h.input.take (.lineWithin (Line.room limit))).stop.fault? with
  | some f =>
    obtain ⟨hs, rfl⟩ := ht.fault? hf
    rw [Line.read_of_fault hl hf, hs]
    exact .interrupted rfl
  | none =>
    by_cases hb : (h.input.take (.lineWithin (Line.room limit))).bytes = []
    · rw [Line.read_of_empty hl hf hb]
      exact .value _
    · rw [Line.read_of_bytes hl hf hb]
      exact .value _

/-- **On a tame host only an interrupt or a failing wait keeps a command from its outcome**, unless
the process is the child. -/
theorem spawn (line : Line) : Tamely h line.spawn := by
  intro ht
  refine ⟨tame_rule.spawn h line ht, ?_⟩
  have hspawned := line.spawn_spawned h
  generalize line.spawn h = r at hspawned
  cases hspawned with
  | refused => exact .value _
  | unsaid ha he => exact absurd (ht.encodable_of_answer ha) he
  | departed => exact .departed (by simp)
  | stopped _ _ hl =>
    obtain ⟨q, hf, rfl⟩ := hl.of_fault
    rw [Host.input_forked] at hf ⊢
    obtain ⟨hs, rfl⟩ := ht.fault? hf
    rw [hs]
    exact .behind (.interrupted rfl) _
  | lost _ _ hl =>
    rcases hl.of_value with hcode | ⟨image, himage, hend, hexec⟩
    · cases hcode
    · rw [Host.programs_forked] at himage
      exact .behind (.lost himage hend (List.mem_append_left _ hexec) List.getLast?_concat) _
  | undecided _ _ hl he =>
    rcases hl.of_value with hcode | ⟨image, himage, hend, -⟩
    · cases hcode
      cases he
    · rw [Host.programs_forked] at himage
      obtain ⟨code, hcode⟩ := ht.statuses _ _ _ himage hend
      cases he.symm.trans hcode
  | ended => exact .value _

theorem dispatch (config : Config) (line : Line) : Tamely h (Session.dispatch config line) := by
  have hecho : Tamely h (Session.showCommand config line) := by
    unfold Session.showCommand
    split
    · exact .write (Session.encodable_echo line) _ _
    · exact .pure _
  have hstatus : ∀ h outcome, Tamely h (Session.showStatus config outcome) := by
    intro h outcome
    unfold Session.showStatus
    cases hs : if config.reportStatus then outcome.statusLine? else none with
    | none => exact .pure _
    | some status => exact .write (Session.encodable_status hs) _ _
  refine .bind hecho ?_
  intro _ _
  refine .bind (.spawn line) ?_
  intro outcome _
  refine .bind (hstatus _ outcome) ?_
  intro _ _
  exact .pure _

theorem round {config : Config} (hp : config.prompt.Encodable) :
    Tamely h (Session.round config) := by
  refine .bind (.write hp _ _) ?_
  intro _ _
  refine .bind (.read config.two_le_lineLimit) ?_
  intro reading _
  cases reading with
  | endOfStream => exact .pure _
  | line line =>
    refine .bind (.dispatch config line) ?_
    intro _ _
    exact .pure _

theorem rounds {config : Config} (hp : config.prompt.Encodable) (report : Report) :
    Tamely h (Session.rounds config report) := by
  -- a round with a command shortens the input, and its host is tame again
  induction hk : h.input.length using Nat.strong_induction_on generalizing h report with
  | _ k ih =>
    rw [Session.rounds_eq]
    refine .bind (.round hp) ?_
    intro o ho
    cases o with
    | none => exact .pure _
    | some outcome => exact ih _ (hk ▸ Session.length_input_round ho) _ rfl

theorem run {session : Session} (hb : session.config.banner.Encodable)
    (hp : session.config.prompt.Encodable) : Tamely h session.run := by
  have hbanner : Tamely h (Session.showBanner session.config) := by
    unfold Session.showBanner
    split
    · exact .pure _
    · exact .write (Text.encodable_append.mpr ⟨hb, Text.encodable_lineFeed⟩) _ _
  cases hr : session.running with
  | true =>
    rw [Session.run_eq hr]
    refine .bind hbanner ?_
    intro _ _
    refine .bind (.rounds hp {}) ?_
    intro _ _
    refine .bind (.log _ _ _) ?_
    intro _ _
    exact .pure _
  | false =>
    rw [Session.run_eq_of_not_running hr]
    refine .bind hbanner ?_
    intro _ _
    refine .bind (.log _ _ _) ?_
    intro _ _
    exact .pure _

end Action.Tamely

/-! ## Prompts -/

namespace Session

variable {session : Session} {host h : Host} {n : Nat} {t : Trace}

/-- Rounds that come to an end have come to a prompt that the end of the input answers. -/
theorem Reaches.rounds_of_value (hr : session.Reaches host n t h) {report report' : Report}
    (hn : report.commands = n)
    (hv : (rounds session.config report h).ending = .value report') :
    ∃ t' h', session.Reaches host report'.commands t' h' ∧
      (ask session.config h').ending = .value .endOfStream := by
  induction hk : h.input.length using Nat.strong_induction_on generalizing h n t report with
  | _ k ih =>
    rw [rounds_eq] at hv
    obtain ⟨o, ho, hv, -⟩ := bind_eq_value hv
    cases o with
    | none =>
      obtain rfl := Ending.value.inj hv
      rw [round_eq] at ho
      obtain ⟨reading, hask, ho, -⟩ := bind_eq_value ho
      cases reading with
      | endOfStream => exact ⟨t, h, hn ▸ hr, hask⟩
      | line line =>
        obtain ⟨_, -, ho, -⟩ := bind_eq_value ho
        cases ho
    | some outcome =>
      exact ih _ (hk ▸ length_input_round ho) (hr.next ho) (congrArg (· + 1) hn) hv rfl

/-- A run that ends with a value has come to the end of its input. -/
theorem run_of_value {session' : Session} {report : Report}
    (hv : (session.run host).ending = .value (session', report)) :
    session' = { session with running := false } ∧ (session.running = true →
      ∃ t h, session.Reaches host report.commands t h ∧
        (ask session.config h).ending = .value .endOfStream) := by
  cases hrunning : session.running with
  | true =>
    rw [run_eq hrunning] at hv
    obtain ⟨_, hbanner, hv, -⟩ := bind_eq_value hv
    obtain ⟨report', hrounds, hv, -⟩ := bind_eq_value hv
    obtain ⟨_, -, hv, -⟩ := bind_eq_value hv
    cases hv
    exact ⟨rfl, fun _ => (Reaches.start hrunning hbanner).rounds_of_value rfl hrounds⟩
  | false =>
    rw [run_eq_of_not_running hrunning] at hv
    obtain ⟨_, -, hv, -⟩ := bind_eq_value hv
    obtain ⟨_, -, hv, -⟩ := bind_eq_value hv
    cases hv
    exact ⟨rfl, nofun⟩

theorem Reaches.run_of_endOfStream (hr : session.Reaches host n t h)
    (hask : (ask session.config h).ending = .value .endOfStream) :
    ∃ report, (session.run host).ending = .value ({ session with running := false }, report) := by
  obtain ⟨last, hrun⟩ := hr.run
  have hround : (round session.config h).ending = .value none := by
    rw [round_eq, bind_of_ending hask]
    rfl
  rw [hrun, rest, rounds_eq, bind_assoc, bind_of_ending hround]
  exact ⟨_, rfl⟩

/-- When the read behind a prompt comes to a fault, so does the run. -/
theorem Reaches.run_of_unread (hr : session.Reaches host n t h) {f : Fault}
    (hask : (ask session.config h).ending = .fault f) : session.run host =
      ⟨.fault f, (ask session.config h).host, t ++ (ask session.config h).trace⟩ := by
  obtain ⟨last, hrun⟩ := hr.run
  have hask' : ask session.config h =
      ⟨.fault f, (ask session.config h).host, (ask session.config h).trace⟩ := by rw [← hask]
  rw [hrun, rest, rounds_eq, round_eq, bind_assoc, bind_assoc, bind_of_fault hask']

theorem Reaches.tame (hr : session.Reaches host n t h) (ht : host.Tame) :
    h.Tame ∧ h.programs = host.programs := by
  induction hr with
  | start => exact tame_rule.showBanner host session.config ht
  | @next n t h outcome _ _ ih =>
    obtain ⟨hh, hp⟩ := ih
    obtain ⟨hr, hr'⟩ := tame_rule.round h session.config hh
    exact ⟨hr, hr'.trans hp⟩

variable {line : Line}

theorem Reaches.next_of_value (hr : session.Reaches host n t h)
    (hl : (ask session.config h).ending = .value (.line line)) {outcome : Outcome} {left : Host}
    {u : Trace}
    (hs : line.spawn (echoed session.config (ask session.config h).host) =
      ⟨.value outcome, left, u⟩) :
    ∃ t' h', session.Reaches host (n + 1) t' h' ∧ h'.input = left.input := by
  obtain ⟨left', u', hd, hleft, -⟩ := dispatch_of_value hs
  have hround : (round session.config h).ending = .value (some outcome) ∧
      (round session.config h).host = left' := by
    rw [round_eq, bind_of_ending hl]
    dsimp only
    rw [map_eq_pure_bind, bind_of_value hd]
    exact ⟨rfl, rfl⟩
  exact ⟨_, _, hr.next hround.1, hround.2 ▸ hleft⟩

/-- A command that comes to a fault is the last thing of a run. -/
theorem Reaches.run_of_fault (hr : session.Reaches host n t h)
    (hl : (ask session.config h).ending = .value (.line line)) {f : Fault} {left : Host} {u : Trace}
    (hs : line.spawn (echoed session.config (ask session.config h).host) = ⟨.fault f, left, u⟩) :
    (session.run host).ending = .fault f ∧ (session.run host).host = left := by
  obtain ⟨last, hrun⟩ := hr.run
  have hround : ∃ v, round session.config h = ⟨.fault f, left, v⟩ := by
    rw [round_eq, bind_of_ending hl]
    dsimp only
    rw [map_eq_pure_bind, bind_of_fault (dispatch_of_fault hs)]
    exact ⟨_, rfl⟩
  obtain ⟨v, hround⟩ := hround
  rw [hrun, rest, rounds_eq, bind_of_fault (bind_of_fault hround)]
  exact ⟨rfl, rfl⟩

end Session

namespace Line

variable {line : Line} {h : Host}

/-- A command that no program runs comes to an outcome, and takes nothing from the input. -/
theorem spawn_without_program (ht : h.Tame)
    (hno : (∃ e, h.answer = .error e) ∨ (∃ pid, h.answer = .ok pid ∧ pid ≠ 0) ∧
      ∃ e, Program.launch? h.programs line.bytes = .error e) :
    ∃ outcome u, line.spawn h = ⟨.value outcome, h.forked, u⟩ := by
  have hspawned := line.spawn_spawned h
  generalize line.spawn h = r at hspawned
  rcases hno with ⟨e, ha⟩ | ⟨⟨pid, ha, hpid⟩, e, hl⟩
  · cases hspawned with
    | refused => exact ⟨_, _, rfl⟩
    | unsaid ha' he => exact absurd (ht.encodable_of_answer ha') he
    | departed ha' | stopped ha' | lost ha' | undecided ha' | ended ha' => cases ha.symm.trans ha'
  · rw [← h.programs_forked] at hl
    cases hspawned with
    | refused ha' | unsaid ha' => cases ha.symm.trans ha'
    | departed ha' => exact absurd (Except.ok.inj (ha.symm.trans ha')) hpid
    | stopped _ _ hl' | lost _ _ hl' => cases hl'.eq_of_error hl
    | undecided _ _ hl' he =>
      cases hl'.eq_of_error hl
      cases he
    | ended _ _ hl' =>
      cases hl'.eq_of_error hl
      exact ⟨_, _, rfl⟩

theorem spawn_of_lost {pid : Int} {image : Image} {e : SystemError} (ha : h.answer = .ok pid)
    (hpid : pid ≠ 0) (hl : Program.launch? h.programs line.bytes = .ok image)
    (hf : image.fault? h.input = none) (hend : image.ending = .error e) :
    ∃ left u, line.spawn h = ⟨.fault (.system e), left, u⟩ ∧ left.input = image.rest h.input := by
  have hspawned := line.spawn_spawned h
  generalize line.spawn h = r at hspawned
  rw [← h.programs_forked] at hl
  rw [← h.input_forked] at hf ⊢
  have hlived : ∀ {r}, Lived line h.forked r →
      r.ending = .value (.error e) ∧ r.host.input = image.rest h.forked.input := by
    intro r hr
    rw [hr.eq_of_ok hl hf, hend]
    exact ⟨rfl, rfl⟩
  cases hspawned with
  | refused ha' | unsaid ha' => cases ha.symm.trans ha'
  | departed ha' => exact absurd (Except.ok.inj (ha.symm.trans ha')) hpid
  | stopped _ _ hl' | undecided _ _ hl' | ended _ _ hl' => cases (hlived hl').1
  | lost _ _ hl' =>
    obtain ⟨hvalue, hinput⟩ := hlived hl'
    cases hvalue
    exact ⟨_, _, rfl, hinput⟩

end Line

namespace Session

variable {session : Session} {host h : Host} {n : Nat} {t : Trace} {line : Line}

theorem Reaches.tame_echoed (hr : session.Reaches host n t h) (ht : host.Tame) :
    (echoed session.config (ask session.config h).host).Tame ∧
      (echoed session.config (ask session.config h).host).programs = host.programs := by
  obtain ⟨hh, hp⟩ := hr.tame ht
  have hask : Rule _ := tame_rule
  obtain ⟨hleft, hp'⟩ := hask.bind (hask.write h .shell .output session.config.prompt)
    (fun _ _ => hask.read _ session.config.lineLimit) hh
  refine ⟨?_, (programs_echoed _ _).trans (hp'.trans hp)⟩
  unfold echoed
  split
  · exact ⟨hleft.reads, hleft.forks, hleft.statuses⟩
  · exact hleft

/-- After a command that no program runs there is a prompt, on all that was left of the input. -/
theorem Reaches.next_without_program (hr : session.Reaches host n t h) (ht : host.Tame)
    (hl : (ask session.config h).ending = .value (.line line))
    (hno : (∃ e, (ask session.config h).host.answer = .error e) ∨
      (∃ pid, (ask session.config h).host.answer = .ok pid ∧ pid ≠ 0) ∧
      ∃ e, Program.launch? host.programs line.bytes = .error e) :
    ∃ t' h', session.Reaches host (n + 1) t' h' ∧
      h'.input = (ask session.config h).host.input := by
  obtain ⟨htame, hp⟩ := hr.tame_echoed ht
  rw [← hp, ← answer_echoed session.config] at hno
  obtain ⟨outcome, u, hs⟩ := line.spawn_without_program htame hno
  obtain ⟨t', h', hnext, hinput⟩ := hr.next_of_value hl hs
  exact ⟨t', h', hnext, hinput.trans ((Host.input_forked _).trans (input_echoed _ _))⟩

/-- When the wait for a program fails the run ends, and leaves what the program left. -/
theorem Reaches.run_of_lost (hr : session.Reaches host n t h) (ht : host.Tame)
    (hl : (ask session.config h).ending = .value (.line line)) {pid : Int} {image : Image}
    {e : SystemError} (ha : (ask session.config h).host.answer = .ok pid) (hpid : pid ≠ 0)
    (himage : Program.launch? host.programs line.bytes = .ok image)
    (hf : image.fault? (ask session.config h).host.input = none) (hend : image.ending = .error e) :
    (session.run host).ending = .fault (.system e) ∧
      (session.run host).host.input = image.rest (ask session.config h).host.input := by
  obtain ⟨-, hp⟩ := hr.tame_echoed ht
  rw [← hp] at himage
  rw [← answer_echoed session.config] at ha
  rw [← input_echoed session.config (ask session.config h).host] at hf ⊢
  obtain ⟨left, u, hs, hleft⟩ := line.spawn_of_lost ha hpid himage hf hend
  obtain ⟨hending, hhost⟩ := hr.run_of_fault hl hs
  exact ⟨hending, hhost ▸ hleft⟩

/-- **A run ends with its input, or because a read is interrupted**, on a tame host, unless a wait
fails; for that is not caught.  Whatever way it ends, its trace tells why.

A command for which no child can be made, or whose child can become no program, comes to an outcome,
and there is a next prompt on the rest of the input.  But if the wait for a program fails, the run
ends, and what the program left of the input is not read. -/
theorem run_ends (session : Session) {host : Host} (hbanner : session.config.banner.Encodable)
    (hprompt : session.config.prompt.Encodable) (ht : host.Tame) :
    (session.run host).ending.Accounted host.programs (session.run host).trace ∧
    ((∀ path image, Program.launch? host.programs path = .ok image →
        ∃ status, image.ending = .ok status) →
      ∀ f, (session.run host).ending = .fault f → f = .interrupted ∧
        ∃ a bytes, (session.run host).trace.getLast? = some (.read a bytes .interrupt)) ∧
    (∀ session' report, (session.run host).ending = .value (session', report) →
      session' = { session with running := false } ∧ (session.running = true →
        ∃ t h, session.Reaches host report.commands t h ∧
          (ask session.config h).ending = .value .endOfStream)) ∧
    ∀ n t h line, session.Reaches host n t h →
      (ask session.config h).ending = .value (.line line) →
      ((∃ e, (ask session.config h).host.answer = .error e) ∨
          (∃ pid, (ask session.config h).host.answer = .ok pid ∧ pid ≠ 0) ∧
          (∃ e, Program.launch? host.programs line.bytes = .error e) →
        ∃ t' h', session.Reaches host (n + 1) t' h' ∧
          h'.input = (ask session.config h).host.input) ∧
      ∀ pid image e, (ask session.config h).host.answer = .ok pid → pid ≠ 0 →
        Program.launch? host.programs line.bytes = .ok image →
        image.fault? (ask session.config h).host.input = none → image.ending = .error e →
        (session.run host).ending = .fault (.system e) ∧
          (session.run host).host.input = image.rest (ask session.config h).host.input := by
  obtain ⟨-, hends⟩ := Tamely.run hbanner hprompt ht
  refine ⟨hends, ?_, ?_, ?_⟩
  · intro hwaits f hf
    rw [hf] at hends
    cases hends with
    | interrupted hlast => exact ⟨rfl, _, _, hlast⟩
    | lost hl hend =>
      obtain ⟨status, hstatus⟩ := hwaits _ _ hl
      cases hend.symm.trans hstatus
  · intro session' report hv
    exact run_of_value hv
  · intro n t h line hr hl
    exact ⟨hr.next_without_program ht hl, fun pid image e => hr.run_of_lost ht hl⟩

/-- No child can be made for the first command, and there is a second prompt.  The wait for the
second fails, and the third stays unread. -/
theorem run_ends_of_lost_wait : ∃ (session : Session) (host : Host),
    session.config.banner.Encodable ∧ session.config.prompt.Encodable ∧ host.Tame ∧
    host.input = .ofBytes [0x61, 0x0A, 0x62, 0x0A, 0x63, 0x0A] ∧
    (∃ t h, session.Reaches host 1 t h ∧ h.input = .ofBytes [0x62, 0x0A, 0x63, 0x0A]) ∧
    (session.run host).ending = .fault (.system (.ofNumber 10)) ∧
    (session.run host).host.input = .ofBytes [0x63, 0x0A] ∧
    ∃ pid, (session.run host).trace.getLast? = some (.waited pid) := by
  let session : Session := { config := { prompt := [], banner := [], echo := false } }
  let image : Image := { ending := .error (.ofNumber 10) }
  let host : Host := {
    input := .ofBytes [0x61, 0x0A, 0x62, 0x0A, 0x63, 0x0A]
    programs := [⟨[0x62], .ok image⟩]
    forks := [.failure (.ofNumber 11)] }
  have hbanner : session.config.banner.Encodable := nofun
  have hprompt : session.config.prompt.Encodable := nofun
  have ht : host.Tame := by
    constructor
    · intro e he
      simp [host, Input.ofBytes] at he
    · intro e he
      obtain rfl : e = .ofNumber 11 := by simpa [host] using he
      exact SystemError.encodable_message (Text.encodable_ofString _) rfl
    · intro path image status hl hend
      obtain ⟨program, hmem, hlaunch⟩ := Program.mem_of_launch? hl
      obtain rfl := List.mem_singleton.mp hmem
      cases hlaunch
      cases hend
  obtain ⟨hends, -, -, hline⟩ := run_ends session hbanner hprompt ht
  have hr : session.Reaches host 0 _ _ := .start rfl rfl
  have hl : (ask session.config (showBanner session.config host).host).ending =
    .value (.line (.ofRaw [0x61, 0x0A] false)) := rfl
  have hnext := (hline 0 _ _ _ hr hl).1 (Or.inl ⟨_, rfl⟩)
  have ho : (round session.config (showBanner session.config host).host).ending =
    .value (some { command := _ }) := rfl
  have hl' : (ask session.config
      (round session.config (showBanner session.config host).host).host).ending =
    .value (.line (.ofRaw [0x62, 0x0A] false)) := rfl
  obtain ⟨hending, hinput⟩ := (hline 1 _ _ _ (hr.next ho) hl').2 100 image _ rfl (by decide) rfl rfl
    rfl
  obtain ⟨t, h, hreaches, hleft⟩ := hnext
  rw [hending] at hends
  have hlast : ∃ pid, (session.run host).trace.getLast? = some (.waited pid) := by
    cases hends with
    | lost _ _ _ hlast => exact ⟨_, hlast⟩
  exact ⟨session, host, hbanner, hprompt, ht, rfl, ⟨t, h, hreaches, hleft⟩, hending, hinput, hlast⟩

/-- **The wait for a program may fail, and then the run ends with that**: there was no interrupt,
and the next command is never read. -/
theorem lost_wait_unwinds : ∃ host : Host, host.Tame ∧ host.Parental ∧
    host.input = .ofBytes (Text.bytes "/bin/a\n/bin/b\n") ∧
    (Session.run {} host).ending = .fault (.system (.ofNumber 10)) ∧
    (Session.run {} host).host.input = .ofBytes (Text.bytes "/bin/b\n") := by
  let image : Image := { ending := .error (.ofNumber 10) }
  let host : Host := {
    input := .ofBytes (Text.bytes "/bin/a\n/bin/b\n")
    programs := [⟨Text.bytes "/bin/a", .ok image⟩, ⟨Text.bytes "/bin/b", .ok {}⟩] }
  have ht : host.Tame := by
    constructor
    · intro e he
      simp [host, Input.ofBytes] at he
    · intro e he
      cases he
    · intro path image status hl hend
      obtain ⟨program, hmem, hlaunch⟩ := Program.mem_of_launch? hl
      rcases List.mem_pair.mp hmem with rfl | rfl
      · cases hlaunch
        cases hend
      · cases hlaunch
        cases hend
        exact ⟨0, rfl⟩
  have hr : Reaches {} host 0 _ _ := .start rfl rfl
  have hl : (ask {} (showBanner {} host).host).ending =
    .value (.line (.ofRaw (Text.bytes "/bin/a\n") false)) := rfl
  have ha : (ask {} (showBanner {} host).host).host.answer = .ok 100 := rfl
  have himage : Program.launch? host.programs (Text.bytes "/bin/a") = .ok image := rfl
  obtain ⟨hending, hinput⟩ := hr.run_of_lost ht hl ha (by decide) himage rfl rfl
  exact ⟨host, ht, ⟨by decide, by decide⟩, rfl, hending, hinput⟩

end Session

end LineShell
