import LineShell.Proofs.Showing

/-!
# What is shown does not change what runs

The banner, the prompt, the echo and the report of statuses are written around what a session does,
and nothing that it does depends on them.

* `Stage`, `Session.stage`, `Session.stages`: what a session does between two prompts, all that is
  shown left out; `Stage.trace`: a stage with what some settings show around it.
* `Stage.verdict`, `Stage.lastHost`: what stages come to.
* `Session.round_apply`, `Session.rounds_apply`: a round is its stage, with what is shown around it,
  and so are all rounds.
* `Event.isShown`: the shell writes to standard output.  No stage does that.
* `Session.run_displays`: two runs that differ in what they show.
-/

namespace LineShell

open LineShell.Action

/-! ## Stages -/

namespace Ending

def line? : Ending Reading → Option Line
  | value (.line line) => some line
  | _ => none

theorem eq_of_line? {e : Ending Reading} {line : Line} (he : e.line? = some line) :
    e = .value (.line line) := by
  match e with
  | .value (.line line') =>
    obtain rfl := Option.some.inj he
    rfl
  | .value .endOfStream | .fault f | .departure d => cases he

/-- What the shell tells of a command that came to an outcome, if a child was made. -/
def told : Ending (Option Outcome) → Trace
  | value (some outcome) =>
    match outcome.statusLine? with
    | some line => [.write .shell .errors line.coded]
    | none => []
  | _ => []

theorem told_map_none (e : Ending α) : (e.map fun _ => none).told = [] := by cases e <;> rfl

end Ending

/-- What a session does behind one prompt, all that is shown left out: it reads, and if there is a
line it runs that. -/
structure Stage where
  reading : Trace
  line : Option Line := none
  spawned : Trace := []
  ending : Ending (Option Outcome)
  left : Host

def Line.echo (line : Line) : Trace :=
  [.write .shell .output (Session.echoLead.coded ++ line.bytes ++ [terminator])]

namespace Stage

/-- The stage with no more than the status around it, if that is reported. -/
def deeds (report : Bool) (s : Stage) : Trace :=
  s.reading ++ (s.spawned ++ if report then s.ending.told else [])

def shown (config : Config) (s : Stage) : Trace :=
  if config.echo then s.line.toList.flatMap Line.echo else []

def trace (config : Config) (s : Stage) : Trace :=
  Event.writes .shell .output config.prompt.coded ++ (s.reading ++ (s.shown config ++
    (s.spawned ++ if config.reportStatus then s.ending.told else [])))

def verdict (report : Report) : List Stage → Ending Report
  | [] => .value report
  | s :: rest =>
    match s.ending with
    | .value (some outcome) => verdict ⟨report.commands + 1, some outcome⟩ rest
    | .value none => .value report
    | .fault f => .fault f
    | .departure d => .departure d

def lastHost (h : Host) : List Stage → Host
  | [] => h
  | s :: rest => lastHost s.left rest

end Stage

namespace Session

variable {limit : Int} {h : Host} {line : Line} {outcome : Outcome}

def stage (limit : Int) (h : Host) : Stage :=
  let r := Line.read limit h
  match r.ending.line? with
  | some line =>
    let s := line.spawn r.host
    { reading := r.trace, line, spawned := s.trace, ending := s.ending.map some, left := s.host }
  | none => { reading := r.trace, ending := r.ending.map fun _ => none, left := r.host }

theorem stage_of_line (hl : (Line.read limit h).ending.line? = some line) : stage limit h =
    ⟨(Line.read limit h).trace, some line, (line.spawn (Line.read limit h).host).trace,
      (line.spawn (Line.read limit h).host).ending.map some,
      (line.spawn (Line.read limit h).host).host⟩ := by
  unfold stage
  dsimp only
  split
  · rename_i line' hl'
    obtain rfl := Option.some.inj (hl.symm.trans hl')
    rfl
  · rename_i hl'
    cases hl.symm.trans hl'

theorem stage_of_no_line (hl : (Line.read limit h).ending.line? = none) : stage limit h =
    ⟨(Line.read limit h).trace, none, [], (Line.read limit h).ending.map fun _ => none,
      (Line.read limit h).host⟩ := by
  unfold stage
  dsimp only
  split
  · rename_i hl'
    cases hl.symm.trans hl'
  · rfl

theorem length_left_stage (hs : (stage limit h).ending = .value (some outcome)) :
    (stage limit h).left.input.length < h.input.length := by
  cases hl : (Line.read limit h).ending.line? with
  | some line =>
    rw [stage_of_line hl]
    exact Nat.lt_of_le_of_lt (line.consumes_spawn _)
      (Line.length_input_read (Ending.eq_of_line? hl))
  | none =>
    rw [stage_of_no_line hl] at hs
    obtain ⟨_, -, hnone⟩ := Ending.map_eq_value hs
    cases hnone

def stages (limit : Int) (h : Host) : List Stage :=
  match _h : (stage limit h).ending with
  | .value (some _) => stage limit h :: stages limit (stage limit h).left
  | _ => [stage limit h]
termination_by h.input.length
decreasing_by exact length_left_stage _h

theorem stages_of_outcome (hs : (stage limit h).ending = .value (some outcome)) :
    stages limit h = stage limit h :: stages limit (stage limit h).left := by
  rw [stages]
  split
  · rfl
  · rename_i hno
    exact absurd hs (hno _)

theorem stages_of_no_outcome (hs : ∀ outcome, (stage limit h).ending ≠ .value (some outcome)) :
    stages limit h = [stage limit h] := by
  rw [stages]
  split
  · rename_i outcome ho
    exact absurd ho (hs outcome)
  · rfl

end Session

/-! ## Nothing waits to be written -/

theorem Host.Quiet.setPending {h : Host} (hq : h.Quiet) (s : Stream) : h.setPending s [] = h := by
  obtain ⟨hout, herr⟩ := hq
  obtain ⟨input, programs, forks, nextPid, output, errors⟩ := h
  subst hout
  subst herr
  cases s <;> rfl

theorem Line.host_read {limit : Int} (hl : 2 ≤ limit) (h : Host) : (Line.read limit h).host =
    { h with input := (h.input.take (.lineWithin (room limit))).rest } := by
  cases hf : (h.input.take (.lineWithin (room limit))).stop.fault? with
  | some f => rw [read_of_fault hl hf]
  | none =>
    by_cases hb : (h.input.take (.lineWithin (room limit))).bytes = []
    · rw [read_of_empty hl hf hb]
    · rw [read_of_bytes hl hf hb]

theorem Line.quiet_read {limit : Int} (hl : 2 ≤ limit) {h : Host} (hq : h.Quiet) :
    (Line.read limit h).host.Quiet := by
  rw [host_read hl]
  exact ⟨hq.output, hq.errors⟩

namespace Session

variable {config : Config} {limit : Int} {h : Host}

theorem quiet_stage (hl : 2 ≤ limit) (hq : h.Quiet) : (stage limit h).left.Quiet := by
  cases hline : (Line.read limit h).ending.line? with
  | some line =>
    rw [stage_of_line hline]
    exact (line.spawn_spawned _).quiet
  | none =>
    rw [stage_of_no_line hline]
    exact Line.quiet_read hl hq

/-! ## A run is its stages -/

theorem showCommand_of_quiet (config : Config) (line : Line) (hq : h.Quiet) :
    showCommand config line h = ⟨.value (), h, if config.echo then line.echo else []⟩ := by
  rw [showCommand_apply, echo, echoed, hq.output, hq.setPending, List.nil_append, ite_self]
  rfl

theorem showStatus_of_quiet (config : Config) (outcome : Outcome) (hq : h.Quiet) :
    showStatus config outcome h = ⟨.value (), h,
      if config.reportStatus then (Ending.value (some outcome)).told else []⟩ := by
  unfold showStatus Ending.told
  cases config.reportStatus with
  | false => rfl
  | true =>
    rw [if_pos rfl, if_pos rfl]
    dsimp only
    cases hs : outcome.statusLine? with
    | none => rfl
    | some line =>
      dsimp only
      rw [write_of_encodable hq (Outcome.encodable_statusLine hs),
        Event.writes_of_ne_nil (Outcome.coded_statusLine_ne_nil hs)]

/-- A command is dispatched with its echo before it and its status behind it. -/
theorem dispatch_apply (config : Config) (line : Line) (hq : h.Quiet) :
    dispatch config line h = ⟨(line.spawn h).ending, (line.spawn h).host,
      (if config.echo then line.echo else []) ++ ((line.spawn h).trace ++
        if config.reportStatus then ((line.spawn h).ending.map some).told else [])⟩ := by
  have hecho := showCommand_of_quiet config line hq
  have hspawn := (line.spawn_spawned h).quiet
  rw [dispatch, bind_of_value hecho]
  generalize hs : line.spawn h = r at hspawn ⊢
  obtain ⟨ending, left, t⟩ := r
  cases ending with
  | value outcome =>
    rw [bind_of_value hs, bind_of_value (showStatus_of_quiet config outcome hspawn), pure_apply,
      List.append_nil]
    rfl
  | fault f =>
    rw [bind_of_fault hs]
    simp only [Ending.map, Ending.told, ite_self, List.append_nil]
  | departure d =>
    rw [bind_of_departure hs]
    simp only [Ending.map, Ending.told, ite_self, List.append_nil]

/-- **A round is its stage**, with what is shown around it. -/
theorem round_apply (hprompt : config.prompt.Encodable) (hq : h.Quiet) :
    round config h = ⟨(stage config.lineLimit h).ending, (stage config.lineLimit h).left,
      (stage config.lineLimit h).trace config⟩ := by
  have hask := ask_apply hprompt h
  have hquiet := Line.quiet_read config.two_le_lineLimit hq
  rw [hq.output, hq.setPending, List.nil_append] at hask
  dsimp only at hask
  rw [round_eq]
  cases hline : (Line.read config.lineLimit h).ending.line? with
  | some line =>
    rw [Ending.eq_of_line? hline] at hask
    rw [stage_of_line hline, bind_of_value hask]
    dsimp only
    rw [map_apply, dispatch_apply config line hquiet, Stage.trace, Stage.shown]
    simp only [Option.toList_some, List.flatMap_cons, List.flatMap_nil, List.append_nil,
      List.append_assoc]
  | none =>
    rw [stage_of_no_line hline]
    have htrace : ∀ e t, Stage.trace config ⟨t, none, [], Ending.map (fun _ : Reading => none) e,
        (Line.read config.lineLimit h).host⟩ =
          Event.writes .shell .output config.prompt.coded ++ t := by
      intro e t
      simp only [Stage.trace, Stage.shown, Ending.told_map_none, Option.toList_none,
        List.flatMap_nil, ite_self, List.append_nil]
    rw [htrace]
    generalize (Line.read config.lineLimit h).ending = ending at hline hask ⊢
    match ending with
    | .value (.line line) => cases hline
    | .value .endOfStream =>
      rw [bind_of_value hask]
      exact congrArg (Result.mk _ _) (List.append_nil _)
    | .fault f => exact bind_of_fault hask
    | .departure d => exact bind_of_departure hask

theorem rounds_apply (hprompt : config.prompt.Encodable) (hq : h.Quiet) (report : Report) :
    rounds config report h = ⟨Stage.verdict report (stages config.lineLimit h),
      Stage.lastHost h (stages config.lineLimit h),
      (stages config.lineLimit h).flatMap (Stage.trace config)⟩ := by
  -- a round with a command shortens the input, and leaves nothing that waits to be written
  induction hk : h.input.length using Nat.strong_induction_on generalizing h report with
  | _ k ih =>
    have hround := round_apply hprompt hq
    rw [rounds_eq]
    by_cases ho : ∃ outcome, (stage config.lineLimit h).ending = .value (some outcome)
    · obtain ⟨outcome, ho⟩ := ho
      have hleft := quiet_stage config.two_le_lineLimit hq
      have hrest := ih _ (hk ▸ length_left_stage ho) hleft ⟨report.commands + 1, some outcome⟩ rfl
      rw [ho] at hround
      rw [stages_of_outcome ho, bind_of_value hround, Stage.verdict, ho]
      dsimp only
      rw [hrest]
      rfl
    · have hno := not_exists.mp ho
      rw [stages_of_no_outcome hno, Stage.verdict, List.flatMap_singleton]
      cases hs : (stage config.lineLimit h).ending with
      | value o =>
        cases o with
        | some outcome => exact absurd hs (hno outcome)
        | none =>
          rw [hs] at hround
          rw [bind_of_value hround]
          exact congrArg (Result.mk _ _) (List.append_nil _)
      | fault f =>
        rw [hs] at hround
        exact bind_of_fault hround
      | departure d =>
        rw [hs] at hround
        exact bind_of_departure hround

theorem showBanner_of_quiet (hbanner : config.banner.Encodable) (hq : h.Quiet) :
    showBanner config h = ⟨.value (), h, bannerTrace config⟩ := by
  rw [showBanner_flushes hbanner, hq.setPending, hq.output, List.nil_append, bannerTrace]
  split <;> rfl

/-- The stages of a run.  A session that does not run has none. -/
def staged (session : Session) (h : Host) : List Stage :=
  if session.running then stages session.config.lineLimit h else []

def closing : Ending Report → Trace
  | .value report => [.log ⟨"labsh.shell.loop", .debug, .ofString "input ended after " ++
      .decimal report.commands ++ .ofString " commands"⟩]
  | _ => []

/-- **A run is its stages**, with what is shown before and around them. -/
theorem run_apply {session : Session} (hbanner : session.config.banner.Encodable)
    (hprompt : session.config.prompt.Encodable) (hq : h.Quiet) :
    session.run h = ⟨(Stage.verdict {} (session.staged h)).map fun report =>
        ({ session with running := false }, report), Stage.lastHost h (session.staged h),
      bannerTrace session.config ++ ((session.staged h).flatMap (Stage.trace session.config) ++
        closing (Stage.verdict {} (session.staged h)))⟩ := by
  have hshow := showBanner_of_quiet hbanner hq
  unfold staged
  cases hrunning : session.running with
  | true =>
    have hrounds := rounds_apply hprompt hq {}
    rw [run_eq hrunning, bind_of_value hshow, if_pos rfl]
    generalize Stage.verdict {} (stages session.config.lineLimit h) = ending at hrounds ⊢
    cases ending with
    | value report =>
      rw [bind_of_value hrounds]
      rfl
    | fault f =>
      rw [bind_of_fault hrounds]
      simp only [closing, Ending.map, List.append_nil]
    | departure d =>
      rw [bind_of_departure hrounds]
      simp only [closing, Ending.map, List.append_nil]
  | false =>
    rw [run_eq_of_not_running hrunning, bind_of_value hshow, if_neg Bool.false_ne_true]
    rfl

end Session

/-! ## What is shown -/

def Event.isShown : Event → Bool
  | .write .shell .output _ => true
  | _ => false

theorem Event.not_isShown_of_isOfChild {e : Event} (he : e.isOfChild = true) :
    e.isShown = false := by
  unfold isShown
  split
  · cases he
  · rfl

/-- The shell does something about a child: it makes one or fails to, it waits, it tells of that. -/
def Event.isAboutChild : Event → Bool
  | .fork _ | .forkFailure _ | .wait _ _ | .waited _ | .log _ | .write .shell .errors _ => true
  | _ => false

theorem Event.not_isShown_of_isAboutChild {e : Event} (he : e.isAboutChild = true) :
    e.isShown = false := by
  unfold isShown
  split
  · cases he
  · rfl

namespace Line

variable {line : Line} {h : Host}

theorem read_does_not_show (limit : Int) : Does (!·.isShown) (Line.read limit) := by
  unfold Line.read
  split
  · exact .raise _
  · refine .bind (.takeInput (fun _ _ => rfl) _) ?_
    intro raw
    split
    · exact .bind (.emit rfl) fun _ => .pure _
    · dsimp only
      split
      · exact .bind (.emit rfl) fun _ => .pure _
      · exact .pure _

/-- While a command runs everything is done by its child, or is done about it. -/
theorem mem_spawn (hq : h.Quiet) : ∀ e ∈ (line.spawn h).trace,
    e.isOfChild = true ∨ e.isAboutChild = true := by
  have hchild : ∀ {t}, Tries line h.forked t →
      ∀ e ∈ t, e.isOfChild = true ∨ e.isAboutChild = true := by
    intro t ht e he
    have hall := List.filter_eq_self.mp ht.filter_isOfChild
    exact Or.inl (hall e he)
  have hrefusing : ∀ e, ∀ event ∈ line.refusing h e,
      event.isOfChild = true ∨ event.isAboutChild = true := by
    intro e
    rw [refusing, hq.pendingWrites, List.nil_append]
    exact List.forall_mem_cons.mpr ⟨Or.inr rfl, List.forall_mem_singleton.mpr (Or.inr rfl)⟩
  have hstarting : ∀ pid, ∀ event ∈ line.starting h pid,
      event.isOfChild = true ∨ event.isAboutChild = true := by
    intro pid
    rw [starting, hq.pendingWrites, List.nil_append]
    exact List.forall_mem_cons.mpr ⟨Or.inr rfl, List.forall_mem_cons.mpr ⟨Or.inr rfl,
      List.forall_mem_singleton.mpr (Or.inr rfl)⟩⟩
  have hspawned := line.spawn_spawned h
  generalize line.spawn h = r at hspawned
  cases hspawned with
  | refused =>
    refine List.forall_mem_append.mpr ⟨hrefusing _, ?_⟩
    intro e he
    rw [Event.eq_of_mem_writes he]
    exact Or.inr rfl
  | unsaid => exact hrefusing _
  | departed _ hb =>
    have ht : Tries line h.forked _ := become_tries h.quiet_forked
    rw [hb] at ht
    rw [hq.pendingWrites, List.nil_append]
    exact List.forall_mem_cons.mpr ⟨Or.inr rfl, hchild ht⟩
  | stopped _ _ hl => exact List.forall_mem_append.mpr ⟨hstarting _, hchild hl.tries⟩
  | lost _ _ hl | undecided _ _ hl =>
    exact List.forall_mem_append.mpr ⟨hstarting _, List.forall_mem_append.mpr
      ⟨hchild hl.tries, List.forall_mem_singleton.mpr (Or.inr rfl)⟩⟩
  | ended _ _ hl =>
    exact List.forall_mem_append.mpr ⟨hstarting _, List.forall_mem_append.mpr ⟨hchild hl.tries,
      List.forall_mem_cons.mpr ⟨Or.inr rfl, List.forall_mem_singleton.mpr (Or.inr rfl)⟩⟩⟩

/-- **Nothing is shown while a command runs**; what its child writes is not of the shell. -/
theorem spawn_does_not_show (hq : h.Quiet) : ∀ e ∈ (line.spawn h).trace, e.isShown = false := by
  intro e he
  rcases mem_spawn hq e he with hchild | habout
  · exact Event.not_isShown_of_isOfChild hchild
  · exact Event.not_isShown_of_isAboutChild habout

/-- A command has a status iff its fork succeeded. -/
theorem status_of_spawn (hq : h.Quiet) {outcome : Outcome}
    (ho : (line.spawn h).ending = .value outcome) :
    (∃ pid, .fork pid ∈ (line.spawn h).trace) ↔ ∃ status, outcome.statusLine? = some status := by
  have hspawned := line.spawn_spawned h
  generalize line.spawn h = r at hspawned ho
  cases hspawned with
  | refused =>
    obtain rfl := Ending.value.inj ho
    refine iff_of_false ?_ nofun
    rintro ⟨pid, hmem⟩
    rw [refusing, hq.pendingWrites, List.nil_append] at hmem
    rcases List.mem_append.mp hmem with hmem | hmem
    · rcases List.mem_pair.mp hmem with hmem | hmem <;> cases hmem
    · cases Event.eq_of_mem_writes hmem
  | @ended pid =>
    obtain rfl := Ending.value.inj ho
    refine iff_of_true ⟨pid, ?_⟩ ⟨_, rfl⟩
    rw [starting, hq.pendingWrites, List.nil_append]
    exact List.mem_cons_self
  | unsaid | departed | stopped | lost | undecided => cases ho

end Line

theorem Trace.filter_not_isShown {t : Trace} (ht : ∀ e ∈ t, e.isShown = false) :
    t.filter (!·.isShown) = t := by
  refine List.filter_eq_self.mpr ?_
  intro e he
  rw [ht e he]
  rfl

theorem Event.filter_writes_output (bytes : Bytes) :
    (writes .shell .output bytes).filter (!·.isShown) = [] :=
  filter_writes_of_neg Bool.false_ne_true

theorem Session.filter_bannerTrace (config : Config) :
    (bannerTrace config).filter (!·.isShown) = [] := by
  unfold bannerTrace
  split
  · rfl
  · exact Event.filter_writes_output _

theorem Ending.told_does_not_show (e : Ending (Option Outcome)) :
    ∀ event ∈ e.told, event.isShown = false := by
  unfold told
  split
  · split
    · exact List.forall_mem_singleton.mpr rfl
    · nofun
  · nofun

theorem Ending.written_told (e : Ending (Option Outcome)) : e.told.written .output = [] := by
  unfold told
  split
  · split <;> rfl
  · rfl

namespace Stage

variable {config : Config} {s : Stage}

/-- The stage itself shows nothing, and the command has a status, if it comes to an outcome, iff its
fork succeeded. -/
structure Plain (s : Stage) : Prop where
  reading : ∀ e ∈ s.reading, e.isShown = false
  spawned : ∀ e ∈ s.spawned, e.isShown = false
  told : ∀ outcome, s.ending = .value (some outcome) →
    (∃ pid, .fork pid ∈ s.spawned) ∧
        (∃ status, outcome.statusLine? = some status ∧
          s.ending.told = [.write .shell .errors status.coded]) ∨
      (∀ pid, .fork pid ∉ s.spawned) ∧ s.ending.told = []

theorem filter_shown (config : Config) (s : Stage) :
    (s.shown config).filter (!·.isShown) = [] := by
  unfold shown
  split
  · cases s.line <;> rfl
  · rfl

/-- **Without what is shown around it, a stage is no more than what it does.** -/
theorem Plain.filter_trace (hs : s.Plain) :
    (s.trace config).filter (!·.isShown) = s.deeds config.reportStatus := by
  have htold : ∀ e ∈ if config.reportStatus then s.ending.told else [], e.isShown = false := by
    split
    · exact s.ending.told_does_not_show
    · nofun
  rw [trace, List.filter_append, Event.filter_writes_output, List.filter_append,
    Trace.filter_not_isShown hs.reading, List.filter_append, filter_shown, List.filter_append,
    Trace.filter_not_isShown hs.spawned, Trace.filter_not_isShown htold]
  rfl

theorem written_deeds (report : Bool) (s : Stage) :
    Trace.written .output (s.deeds report) = Trace.written .output (s.reading ++ s.spawned) := by
  rw [deeds, ← List.append_assoc, Trace.written_append]
  split
  · rw [s.ending.written_told, List.append_nil]
  · exact List.append_nil _

end Stage

namespace Session

variable {limit : Int} {host h : Host} {n : Nat} {t : Trace}

theorem plain_stage (hq : h.Quiet) (hl : 2 ≤ limit) : (stage limit h).Plain := by
  have hread : ∀ e ∈ (Line.read limit h).trace, e.isShown = false := by
    intro e he
    simpa using Line.read_does_not_show limit h e he
  have hquiet := Line.quiet_read hl hq
  cases hline : (Line.read limit h).ending.line? with
  | some line =>
    rw [stage_of_line hline]
    refine ⟨hread, Line.spawn_does_not_show hquiet, ?_⟩
    intro outcome ho
    obtain ⟨outcome', hspawn, ho'⟩ := Ending.map_eq_value ho
    obtain rfl : outcome' = outcome := Option.some.inj ho'
    have hstatus := Line.status_of_spawn hquiet hspawn
    dsimp only at ho ⊢
    rw [ho, Ending.told]
    cases hs : outcome'.statusLine? with
    | some status => exact Or.inl ⟨hstatus.mpr ⟨status, hs⟩, status, rfl, rfl⟩
    | none =>
      refine Or.inr ⟨?_, rfl⟩
      intro pid hmem
      obtain ⟨status, hs'⟩ := hstatus.mp ⟨pid, hmem⟩
      cases hs.symm.trans hs'
  | none =>
    rw [stage_of_no_line hline]
    refine ⟨hread, nofun, ?_⟩
    intro outcome ho
    obtain ⟨_, -, hnone⟩ := Ending.map_eq_value ho
    cases hnone

theorem plain_stages (hq : h.Quiet) (hl : 2 ≤ limit) : ∀ s ∈ stages limit h, s.Plain := by
  induction hk : h.input.length using Nat.strong_induction_on generalizing h with
  | _ k ih =>
    have hplain := plain_stage hq hl
    by_cases ho : ∃ outcome, (stage limit h).ending = .value (some outcome)
    · obtain ⟨outcome, ho⟩ := ho
      rw [stages_of_outcome ho]
      have hrest := ih _ (hk ▸ length_left_stage ho) (quiet_stage hl hq) rfl
      exact List.forall_mem_cons.mpr ⟨hplain, hrest⟩
    · rw [stages_of_no_outcome (not_exists.mp ho)]
      exact List.forall_mem_singleton.mpr hplain

theorem plain_staged (session : Session) (hq : h.Quiet) : ∀ s ∈ session.staged h, s.Plain := by
  unfold staged
  split
  · exact plain_stages hq session.config.two_le_lineLimit
  · nofun

theorem filter_closing (e : Ending Report) : (closing e).filter (!·.isShown) = closing e := by
  unfold closing
  split <;> rfl

/-! ## Two runs -/

variable {session session' : Session}

/-- A run that shows other things comes to the same prompts, on the same hosts. -/
theorem Reaches.displays (hr : session.Reaches host n t h) (hq : host.Quiet)
    (hrunning : session'.running = session.running)
    (hlimit : session'.config.lineLimit = session.config.lineLimit)
    (hs : session.config.Showable) (hs' : session'.config.Showable) :
    h.Quiet ∧ ∃ t', session'.Reaches host n t' h := by
  induction hr with
  | start hrun _ =>
    have hshow := showBanner_of_quiet hs'.banner hq
    have hr' : session'.Reaches host 0 _ _ := .start (hrunning.trans hrun) (by rw [hshow])
    rw [hshow] at hr'
    rw [showBanner_of_quiet hs.banner hq]
    exact ⟨hq, _, hr'⟩
  | next _ ho ih =>
    obtain ⟨hq, t', hr'⟩ := ih
    have hround' := round_apply hs'.prompt hq
    rw [round_apply hs.prompt hq] at ho ⊢
    rw [hlimit] at hround'
    have hnext := hr'.next ((congrArg Result.ending hround').trans ho)
    rw [hround'] at hnext
    exact ⟨quiet_stage session.config.two_le_lineLimit hq, _, hnext⟩

/-- Without what is shown, a run is what its stages do. -/
theorem filter_run (hs : session.config.Showable) (hq : h.Quiet) :
    (session.run h).trace.filter (!·.isShown) =
      (session.staged h).flatMap (Stage.deeds session.config.reportStatus) ++
        closing (Stage.verdict {} (session.staged h)) := by
  rw [run_apply hs.banner hs.prompt hq]
  dsimp only
  have hplain := session.plain_staged hq
  rw [List.filter_append, filter_bannerTrace, List.nil_append, List.filter_append, filter_closing,
    List.filter_flatMap, List.flatMap_congr fun s hmem => (hplain s hmem).filter_trace]

/-- What the children of a run write to standard output, and all else that the shell does not
show. -/
theorem written_filter_run (hs : session.config.Showable) (hq : h.Quiet) :
    Trace.written .output ((session.run h).trace.filter (!·.isShown)) =
      (session.staged h).flatMap fun s => Trace.written .output (s.reading ++ s.spawned) := by
  have hclosing : ∀ e, Trace.written .output (closing e) = [] := by
    intro e
    unfold closing
    split <;> rfl
  rw [filter_run hs hq, Trace.written_append, hclosing, List.append_nil]
  exact List.flatMap_assoc.trans (List.flatMap_congr fun s _ => Stage.written_deeds _ s)

theorem log_of_mem_closing (e : Ending Report) : ∀ event ∈ closing e, ∃ r, event = .log r := by
  unfold closing
  split
  · exact List.forall_mem_singleton.mpr ⟨_, rfl⟩
  · nofun

/-- **What is shown does not change what runs.**

Suppose that nothing waits to be written, and that two sessions differ in no more than banner,
prompt, echo and whether they report, and the banners and prompts can be written.  Then two runs end
the same way, with the same report or the same fault, and leave the same host.  They come to the
same prompts on the same hosts, so that they read the same commands.

Both runs have the same stages.  Their traces are the stages with what each shows around them; the
stages themselves write nothing to standard output but what children write.  Without what is shown,
the traces are the same but for the statuses: a session that reports has one status line behind each
command that comes to an outcome and whose fork succeeded, and none anywhere else. -/
theorem run_displays (hq : host.Quiet) (hrunning : session'.running = session.running)
    (hlimit : session'.config.lineLimit = session.config.lineLimit)
    (hs : session.config.Showable) (hs' : session'.config.Showable) :
    (session'.run host).ending.map Prod.snd = (session.run host).ending.map Prod.snd ∧
    (session'.run host).host = (session.run host).host ∧
    (∀ n h, (∃ t, session.Reaches host n t h) ↔ ∃ t, session'.Reaches host n t h) ∧
    (∀ s ∈ session.staged host, s.Plain) ∧
    (∃ closing : Trace, (∀ e ∈ closing, ∃ r, e = .log r) ∧
      (session.run host).trace = bannerTrace session.config ++
        ((session.staged host).flatMap (Stage.trace session.config) ++ closing) ∧
      (session'.run host).trace = bannerTrace session'.config ++
        ((session.staged host).flatMap (Stage.trace session'.config) ++ closing) ∧
      (session.run host).trace.filter (!·.isShown) =
        (session.staged host).flatMap (Stage.deeds session.config.reportStatus) ++ closing ∧
      (session'.run host).trace.filter (!·.isShown) =
        (session.staged host).flatMap (Stage.deeds session'.config.reportStatus) ++ closing) ∧
    Trace.written .output ((session'.run host).trace.filter (!·.isShown)) =
      Trace.written .output ((session.run host).trace.filter (!·.isShown)) ∧
    (session'.config.reportStatus = session.config.reportStatus →
      (session'.run host).trace.filter (!·.isShown) =
        (session.run host).trace.filter (!·.isShown)) := by
  have hstaged : session'.staged host = session.staged host := by
    unfold staged
    rw [hrunning, hlimit]
  have hrun := run_apply hs.banner hs.prompt hq
  have hrun' := run_apply hs'.banner hs'.prompt hq
  have hdeeds' := filter_run hs' hq
  have hwritten' := written_filter_run hs' hq
  rw [hstaged] at hrun' hdeeds' hwritten'
  refine ⟨?_, ?_, ?_, session.plain_staged hq, ⟨_, log_of_mem_closing _, ?_, ?_, filter_run hs hq,
    hdeeds'⟩, ?_, ?_⟩
  · rw [hrun, hrun']
    cases Stage.verdict {} (session.staged host) <;> rfl
  · rw [hrun, hrun']
  · intro n h
    constructor
    · rintro ⟨t, hr⟩
      exact (hr.displays hq hrunning hlimit hs hs').2
    · rintro ⟨t, hr⟩
      exact (hr.displays hq hrunning.symm hlimit.symm hs' hs).2
  · rw [hrun]
  · rw [hrun']
  · rw [hwritten', written_filter_run hs hq]
  · intro hreport
    rw [hdeeds', filter_run hs hq, hreport]

/-- A session that shows all it can and one that shows nothing: behind a command that is killed,
both prompt on the same host for the next. -/
theorem run_displays_of_silent : ∃ (session session' : Session) (host h : Host),
    host.Quiet ∧ session'.running = session.running ∧
    session'.config.lineLimit = session.config.lineLimit ∧
    session.config.Showable ∧ session'.config.Showable ∧
    session.config.echo = true ∧ session.config.reportStatus = true ∧
    session.config.prompt = .ofString "~ # " ∧
    session'.config.echo = false ∧ session'.config.reportStatus = false ∧
    session'.config.prompt = [] ∧ session'.config.banner = [] ∧
    host.input = .ofBytes (Text.bytes "/a\n/b\n") ∧ h.input = .ofBytes (Text.bytes "/b\n") ∧
    Program.launch? host.programs (Text.bytes "/a") = .ok { ending := .ok 9 } ∧
    (∃ t, session'.Reaches host 1 t h) ∧ (∃ t, session.Reaches host 1 t h) ∧
    (session'.run host).ending.map Prod.snd = (session.run host).ending.map Prod.snd ∧
    (session'.run host).host = (session.run host).host := by
  let session : Session := { config := { reportStatus := true } }
  let session' : Session := { config := { prompt := [], banner := [], echo := false } }
  let host : Host := {
    input := .ofBytes (Text.bytes "/a\n/b\n")
    programs := [⟨Text.bytes "/a", .ok { ending := .ok 9 }⟩] }
  let h : Host := { host with input := .ofBytes (Text.bytes "/b\n"), nextPid := 101 }
  have hq : host.Quiet := ⟨rfl, rfl⟩
  have hs : session.config.Showable := ⟨Text.encodable_ofString _, Text.encodable_ofString _⟩
  have hs' : session'.config.Showable := ⟨Text.encodable_ofChars [], Text.encodable_ofChars []⟩
  have hround : ∃ command t, round session'.config host =
    ⟨.value (some ⟨command, some 100, some (-9)⟩), h, t⟩ := ⟨_, _, rfl⟩
  obtain ⟨_, _, hround⟩ := hround
  have hr₀ : session'.Reaches host 0 _ host := .start rfl rfl
  have hr₁ := hr₀.next (congrArg Result.ending hround)
  rw [hround] at hr₁
  obtain ⟨hending, hhost, hprompts, -⟩ := @run_displays host session session' hq rfl rfl hs hs'
  exact ⟨session, session', host, h, hq, rfl, rfl, hs, hs', rfl, rfl, rfl, rfl, rfl, rfl, rfl, rfl,
    rfl, rfl, ⟨_, hr₁⟩, (hprompts 1 h).mpr ⟨_, hr₁⟩, hending, hhost⟩

end Session

end LineShell
