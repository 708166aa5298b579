import LineShell.Proofs.Forks
import LineShell.Proofs.Steps

/-!
# What waits to be written crosses no fork

Output that waits is in the memory of the shell, and a fork would make a second copy of it.  So it
is written before.

* `ProcessTable.Step.forks`: the steps that ask for a child.
* `ProcessTable.Step.buffered`, `ProcessTable.due`, `ProcessTable.added`: what is there to write.
* `ProcessTable.Writing`: all that one step writes, and what waits then.
* `ProcessTable.written_left`: each byte is written once, or it still waits.
* `ProcessTable.pending_left_of_not_forks`: what still waits.
* `ProcessTable.performAll_flushes`: all this for every sequence of steps.
-/

namespace LineShell

open LineShell.Action

/-! ## Streams -/

namespace Trace

theorem written_filter_isWrite (s : Stream) (t : Trace) :
    written s (t.filter Event.isWrite) = written s t := by
  induction t with
  | nil => rfl
  | cons e t ih =>
    cases e with
    | write a s' bytes =>
      rw [List.filter_cons_of_pos rfl]
      exact congrArg (_ ++ ·) ih
    | _ =>
      rw [List.filter_cons_of_neg Bool.false_ne_true, ih]
      rfl

theorem written_writes (s s' : Stream) (a : Actor) (bytes : Bytes) :
    written s (Event.writes a s' bytes) = if s' = s then bytes else [] := by
  unfold Event.writes
  cases bytes with
  | nil => exact (ite_self _).symm
  | cons b bs => exact List.append_nil _

end Trace

namespace Host

variable {h : Host}

theorem written_pendingWrites (h : Host) (s : Stream) :
    h.pendingWrites.written s = h.pending s := by
  rw [pendingWrites, Trace.written_append, Trace.written_writes, Trace.written_writes]
  cases s with
  | output => exact List.append_nil _
  | errors => rfl

theorem Quiet.pending (hq : h.Quiet) (s : Stream) : h.pending s = [] := by
  cases s with
  | output => exact hq.output
  | errors => exact hq.errors

theorem written_attempt (h : Host) (s : Stream) (t : Trace) :
    Trace.written s (h.attempt :: t) = Trace.written s t := by
  unfold attempt
  cases h.answer <;> rfl

end Host

namespace ProcessTable

variable {table : ProcessTable} {step : Step} {steps : List Step}

/-! ## What is there to write -/

def Step.forks : Step → Bool
  | .fork _ => true
  | .spawn command _ _ => (Line.ofBytes? command false).isSome
  | _ => false

def Step.buffered (stream : Stream) : Step → Bytes
  | .buffer s text => if s = stream ∧ text.Encodable then text.coded else []
  | _ => []

/-- All that is to be written in a step at once: the report or the output of a command. -/
def due (table : ProcessTable) : Step → Trace
  | .spawn command reply launch =>
    match Line.ofBytes? command false with
    | some line => line.due (table.facing (.spawn command reply launch))
    | none => []
  | _ => []

def added (stream : Stream) (table : ProcessTable) : List Step → Bytes
  | [] => []
  | step :: steps => step.buffered stream ++ (table.due step).written stream ++
      added stream (table.perform step).table steps

theorem added_append (s : Stream) (table : ProcessTable) (steps steps' : List Step) :
    added s table (steps ++ steps') = added s table steps ++ added s (table.left steps) steps' := by
  induction steps generalizing table with
  | nil => rfl
  | cons step steps ih =>
    rw [List.cons_append, added, added, ih, List.append_assoc _ (added s _ steps)]
    rfl

/-! ## One step -/

/-- All that a step writes, and what waits to be written then. -/
inductive Writing (table : ProcessTable) (step : Step) (done : Performed) : Prop
  /-- All that waits is written before the fork, and what is due behind it. -/
  | forking {t : Trace} : step.forks = true → (∀ s, step.buffered s = []) →
      done.trace = table.host.pendingWrites ++ (table.facing step).attempt :: t →
      t.filter Event.isForking = [] → t.filter Event.isWrite = table.due step →
      done.table.host.Quiet → Writing table step done
  /-- Nothing is written. -/
  | silent : step.forks = false → table.due step = [] → done.trace.filter Event.isForking = [] →
      done.trace.filter Event.isWrite = [] →
      (∀ s, done.table.host.pending s = table.host.pending s ++ step.buffered s) →
      Writing table step done

theorem pending_setPending (h : Host) (s s' : Stream) (bytes : Bytes) :
    (h.setPending s bytes).pending s' = if s = s' then bytes else h.pending s' := by
  cases s <;> cases s' <;> rfl

theorem perform_writing (table : ProcessTable) (step : Step) :
    Writing table step (table.perform step) := by
  have hkept : ∀ s, table.host.pending s = table.host.pending s ++ [] :=
    fun s => (List.append_nil _).symm
  have hstepped := table.perform_stepped step
  generalize table.perform step = done at hstepped
  cases hstepped with
  | adopted | unknown | refused | failed | reaped => exact .silent rfl rfl rfl rfl hkept
  | forked reply =>
    refine .forking rfl (fun s => rfl) (trace_fork _) rfl rfl ?_
    dsimp only
    rw [fork_apply]
    exact Host.quiet_forked _
  | asked path launch =>
    refine .silent rfl rfl rfl rfl ?_
    intro s
    cases s <;> exact (List.append_nil _).symm
  | @buffered stream text ht =>
    refine .silent rfl rfl rfl rfl ?_
    intro s
    dsimp only
    rw [pending_setPending, Step.buffered]
    by_cases hs : stream = s
    · rw [if_pos hs, if_pos ⟨hs, ht⟩, hs]
    · rw [if_neg hs, if_neg fun h => hs h.1, List.append_nil]
  | unbuffered stream place ht =>
    refine .silent rfl rfl rfl rfl ?_
    intro s
    rw [Step.buffered, if_neg fun h => ht h.2, List.append_nil]
  | unspawned reply launch hc =>
    refine .silent ?_ ?_ rfl rfl hkept
    · rw [Step.forks, hc]
      rfl
    · rw [due, hc]
  | @spawned command line reply launch hc =>
    obtain ⟨t, ht, hbehind⟩ := line.spawn_behind (table.facing (.spawn command reply launch))
    refine .forking ?_ (fun s => rfl) ht hbehind.forks ?_ (Line.spawn_spawned line _).quiet
    · rw [Step.forks, hc]
      rfl
    · rw [due, hc, hbehind.writes]

theorem written_perform (table : ProcessTable) (step : Step) (s : Stream) :
    (table.perform step).trace.written s ++ (table.perform step).table.host.pending s =
      table.host.pending s ++ (step.buffered s ++ (table.due step).written s) := by
  cases table.perform_writing step with
  | forking _ hbuffered htrace _ hwrites hquiet =>
    rw [htrace, Trace.written_append, Host.written_attempt, Host.written_pendingWrites,
      hquiet.pending, hbuffered, ← Trace.written_filter_isWrite, hwrites, List.append_nil,
      List.nil_append]
  | silent _ hdue _ hwrites hpending =>
    rw [← Trace.written_filter_isWrite, hwrites, hpending, hdue]
    exact congrArg (table.host.pending s ++ ·) (List.append_nil _).symm

/-! ## Many steps -/

def trace (table : ProcessTable) (steps : List Step) : Trace :=
  (table.performAll steps).flatMap (·.trace)

/-- **All that is added to a stream is written to it once, in order, or it still waits.** -/
theorem written_left (table : ProcessTable) (steps : List Step) (s : Stream) :
    (table.trace steps).written s ++ (table.left steps).host.pending s =
      table.host.pending s ++ table.added s steps := by
  induction steps generalizing table with
  | nil => exact (List.append_nil _).symm
  | cons step steps ih =>
    have htrace : table.trace (step :: steps) =
        (table.perform step).trace ++ (table.perform step).table.trace steps := rfl
    rw [htrace, Trace.written_append, List.append_assoc, left, ih, ← List.append_assoc,
      written_perform, added, List.append_assoc, List.append_assoc]

/-- Where nothing forks, all that is added waits. -/
theorem pending_left_of_not_forks (hf : ∀ step ∈ steps, step.forks = false) (s : Stream) :
    (table.left steps).host.pending s = table.host.pending s ++ steps.flatMap (Step.buffered s) ∧
      table.added s steps = steps.flatMap (Step.buffered s) := by
  induction steps generalizing table with
  | nil => exact ⟨(List.append_nil _).symm, rfl⟩
  | cons step steps ih =>
    obtain ⟨hstep, hsteps⟩ := List.forall_mem_cons.mp hf
    obtain ⟨ihp, iha⟩ := @ih (table.perform step).table hsteps
    cases table.perform_writing step with
    | forking hforks => cases hforks.symm.trans hstep
    | silent _ hdue _ _ hpending =>
      rw [left, ihp, hpending, added, iha, hdue, List.flatMap_cons, List.append_assoc]
      exact ⟨rfl, congrArg (· ++ _) (List.append_nil _)⟩

/-- Behind the last fork nothing but what was buffered since still waits, and all else is
written. -/
theorem written_of_last_fork {earlier later : List Step} (hstep : step.forks = true)
    (hlater : ∀ step ∈ later, step.forks = false) (s : Stream) :
    (table.left (earlier ++ step :: later)).host.pending s = later.flatMap (Step.buffered s) ∧
    (table.trace (earlier ++ step :: later)).written s =
      table.host.pending s ++ table.added s (earlier ++ [step]) := by
  have hquiet : ((table.left earlier).perform step).table.host.Quiet := by
    cases (table.left earlier).perform_writing step with
    | forking _ _ _ _ _ hquiet => exact hquiet
    | silent hforks => cases hforks.symm.trans hstep
  have hsplit : earlier ++ step :: later = earlier ++ [step] ++ later :=
    (List.append_assoc earlier [step] later).symm
  have hleft : table.left (earlier ++ [step]) = ((table.left earlier).perform step).table :=
    left_append table earlier [step]
  obtain ⟨hpending, hadded⟩ :=
    @pending_left_of_not_forks ((table.left earlier).perform step).table later hlater s
  rw [hquiet.pending, List.nil_append] at hpending
  have hwritten := table.written_left (earlier ++ step :: later) s
  rw [hsplit, left_append, hleft] at hwritten ⊢
  -- what still waits is the end of all that was added, so what was written is the rest of it
  rw [hpending, added_append, hleft, hadded, ← List.append_assoc] at hwritten
  exact ⟨hpending, List.append_cancel_right hwritten⟩

/-- **Output that waits crosses no fork.**

After any number of steps, all that was added to a stream has been written to it, each byte once and
in the order of the steps, except for what still waits.

A step that asks for a child begins by writing all that waits, standard output first, and all that
was added by then has been written before the fork, whatever the answer to it.  Then nothing waits,
on either side.  Behind the fork the step writes what is due, in writes of its own, so that a report
may as well go past the buffer; and it does not fork again.  Other steps write nothing.

Behind the last fork there waits what was buffered since, and all else is written. -/
theorem performAll_flushes (table : ProcessTable) (steps : List Step) :
    (∀ s, (table.trace steps).written s ++ (table.left steps).host.pending s =
      table.host.pending s ++ table.added s steps) ∧
    (∀ before step later, steps = before ++ step :: later →
      let now := table.left before
      (table.performAll steps)[before.length]? = some (now.perform step) ∧
      (step.forks = true → ∃ first t,
        first = Event.writes .shell .output now.host.pendingOutput ++
          Event.writes .shell .errors now.host.pendingErrors ∧
        (now.perform step).trace = first ++ (now.facing step).attempt :: t ∧
        (∀ s, (table.trace before ++ first).written s =
          table.host.pending s ++ table.added s before) ∧
        t.filter Event.isForking = [] ∧ t.filter Event.isWrite = now.due step ∧
        (now.perform step).table.host.Quiet) ∧
      (step.forks = false → (now.perform step).trace.filter Event.isForking = [] ∧
        (now.perform step).trace.filter Event.isWrite = [])) ∧
    ((∀ step ∈ steps, step.forks = false) → ∀ s,
      (table.left steps).host.pending s = table.host.pending s ++ steps.flatMap (Step.buffered s)) ∧
    ∀ earlier step later, steps = earlier ++ step :: later → step.forks = true →
      (∀ step ∈ later, step.forks = false) → ∀ s,
      (table.left steps).host.pending s = later.flatMap (Step.buffered s) ∧
      (table.trace steps).written s =
        table.host.pending s ++ table.added s (earlier ++ [step]) := by
  refine ⟨written_left table steps, ?_, fun hf s => (pending_left_of_not_forks hf s).1, ?_⟩
  · rintro before step later rfl
    refine ⟨getElem?_performAll table before step later, ?_, ?_⟩
    · intro hforks
      cases (table.left before).perform_writing step with
      | @forking t _ _ htrace hfork hwrites hquiet =>
        refine ⟨(table.left before).host.pendingWrites, t, rfl, htrace, ?_, hfork, hwrites, hquiet⟩
        intro s
        rw [Trace.written_append, Host.written_pendingWrites, written_left]
      | silent hforks' => cases hforks.symm.trans hforks'
    · intro hforks
      cases (table.left before).perform_writing step with
      | forking hforks' => cases hforks.symm.trans hforks'
      | silent _ _ hfork hwrites => exact ⟨hfork, hwrites⟩
  · rintro earlier step later rfl hstep hlater
    exact written_of_last_fork hstep hlater

/-- A fork that fails and a command that cannot be run, with output buffered before, between and
behind them. -/
theorem performAll_flushes_of_failures : ∃ (steps earlier later : List Step) (step : Step)
    (table : ProcessTable), table = {} ∧ steps = earlier ++ step :: later ∧
    earlier = [.buffer .errors (.ofString "b"), .buffer .output (.ofString "a"),
      .fork (.failure (.ofNumber 11)), .buffer .errors (.ofString "c")] ∧
    step = .spawn [0x78] .nextPid (.error (.unnumbered (.ofString "no"))) ∧
    later = [.buffer .output (.ofString "d")] ∧
    step.forks = true ∧ (∀ step ∈ later, step.forks = false) ∧
    (table.trace steps).written .output = Text.coded (.ofString "a") ∧
    (table.left steps).host.pending .output = Text.coded (.ofString "d") ∧
    (table.trace steps).written .errors = Text.coded (.ofString "bcexec failed: x: no\n") ∧
    (table.left steps).host.pending .errors = [] := by
  let earlier : List Step := [.buffer .errors (.ofString "b"), .buffer .output (.ofString "a"),
    .fork (.failure (.ofNumber 11)), .buffer .errors (.ofString "c")]
  let line : Line := ⟨[0x78], false, by decide⟩
  let e : LaunchError := .unnumbered (.ofString "no")
  let step : Step := .spawn [0x78] .nextPid (.error e)
  let later : List Step := [.buffer .output (.ofString "d")]
  have hlater : ∀ step ∈ later, step.forks = false := List.forall_mem_singleton.mpr rfl
  have hbuffered : ∀ (s s' : Stream) (text : String),
      Step.buffered s (.buffer s' (.ofString text)) =
        if s' = s then Text.coded (.ofString text) else [] := by
    intro s s' text
    simp [Step.buffered, Text.encodable_ofString]
  let report : Event := .write .child .errors (Text.coded (.ofString "exec failed: x: no\n"))
  have hdue : ∀ table : ProcessTable, table.due step = [report] := by
    intro table
    have hline : Line.ofBytes? [0x78] false = some line := dif_neg line.terminator_not_mem
    have ha : (table.facing step).answer = .ok table.host.nextPid := rfl
    have hl : Program.launch? (table.facing step).programs line.bytes = .error e := rfl
    have hreason : e.message.Encodable := Text.encodable_ofString "no"
    have hreported : e.reason? = some e.message := rfl
    rw [due, hline]
    refine (Line.due_of_error ha hl).trans ?_
    rw [LaunchError.report, hreported]
    dsimp only
    rw [if_pos hreason]
    decide +kernel
  have hadded : ∀ s, added s {} (earlier ++ [step]) =
      Step.buffered s (.buffer .errors (.ofString "b")) ++
        (Step.buffered s (.buffer .output (.ofString "a")) ++
          (Step.buffered s (.buffer .errors (.ofString "c")) ++ Trace.written s [report])) := by
    intro s
    have hbuffer : ∀ (table : ProcessTable) s t, table.due (.buffer s t) = [] := fun _ _ _ => rfl
    have hfork : ∀ (table : ProcessTable) reply, table.due (.fork reply) = [] := fun _ _ => rfl
    have hnil : Trace.written s [] = [] := rfl
    simp only [earlier, List.cons_append, List.nil_append, added, hdue, hbuffer, hfork, hnil,
      List.append_nil]
    rfl
  obtain ⟨-, -, -, hlast⟩ := performAll_flushes {} (earlier ++ step :: later)
  obtain ⟨houtput, hwritten⟩ := hlast earlier step later rfl rfl hlater .output
  obtain ⟨herrors, hreported⟩ := hlast earlier step later rfl rfl hlater .errors
  refine ⟨_, earlier, later, step, {}, rfl, rfl, rfl, rfl, rfl, rfl, hlater, hwritten.trans ?_,
    houtput.trans ?_, hreported.trans ?_, herrors⟩
  · rw [hadded, hbuffered, hbuffered, hbuffered]
    decide +kernel
  · exact (List.append_nil _).trans (hbuffered _ _ _)
  · rw [hadded, hbuffered, hbuffered, hbuffered]
    decide +kernel

end ProcessTable

end LineShell
