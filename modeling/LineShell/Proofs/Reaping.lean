import LineShell.Proofs.Forks
import LineShell.Proofs.Steps

/-!
# A child is reaped once

Many children are made and waited for, in any order.  A child is reaped by the one wait for it that
comes back, and by nothing else.

* `ProcessTable.created`: all children, each as it was made.
* `ProcessTable.Step.returns`, `ProcessTable.returns`: waits that come back.
* `ProcessTable.Changed`: all that one step does to the children; `ProcessTable.perform_changed`.
* `ProcessTable.perform_of_other`: a child is changed by no step but a wait for it.
* `ProcessTable.left_children`: a child after any number of steps.
* `ProcessTable.of_mem_wait`: who is waited for.
* `ProcessTable.reaped_once`: all this for every sequence of steps.
-/

namespace LineShell

open LineShell.Action

namespace ProcessTable

variable {table : ProcessTable} {step : Step} {steps : List Step}

/-! ## Waits that come back -/

/-- The children that there are in the end, each as it was made. -/
def created (table : ProcessTable) (steps : List Step) : List Child :=
  table.children ++ (table.performAll steps).flatMap (·.ending.made)

/-- The system is asked to wait for the child at a place, and the wait comes back. -/
def Step.returns (index : Nat) (step : Step) (done : Performed) : Bool :=
  match step with
  | .wait i (.ok _) => i == index && done.trace.any Event.isWait
  | _ => false

def returns (table : ProcessTable) (steps : List Step) (index : Nat) : Nat :=
  (steps.zip (table.performAll steps)).countP fun p => p.1.returns index p.2

theorem returns_cons (table : ProcessTable) (step : Step) (steps : List Step) (i : Nat) :
    table.returns (step :: steps) i = (table.perform step).table.returns steps i +
      if step.returns i (table.perform step) then 1 else 0 := List.countP_cons

theorem created_cons (table : ProcessTable) (step : Step) (steps : List Step) :
    table.created (step :: steps) = table.children ++ ((table.perform step).ending.made ++
      ((table.perform step).table.performAll steps).flatMap (·.ending.made)) := rfl

/-! ## One step -/

/-- All that a step does to the children. -/
inductive Changed (table : ProcessTable) (step : Step) (done : Performed) : Prop
  /-- Nothing, but that a child may be made. -/
  | kept : (∀ i, step.returns i done = false) →
      done.table.children = table.children ++ done.ending.made → Changed table step done
  /-- The child that is waited for is reaped. -/
  | reaped {index : Nat} {status : Int} {child : Child} : step = .wait index (.ok status) →
      table.children[index]? = some child → child.reaped = false → done.ending.made = [] →
      done.trace.any Event.isWait = true →
      done.table.children = table.children.set index { child with reaped := true } →
      Changed table step done

theorem Changed.of_children {done : Performed} (hs : ∀ i, step.returns i done = false)
    (hmade : done.ending.made = []) (hc : done.table.children = table.children) :
    Changed table step done := .kept hs (by rw [hc, hmade, List.append_nil])

theorem perform_changed (table : ProcessTable) (step : Step) :
    Changed table step (table.perform step) := by
  have hstepped := table.perform_stepped step
  generalize table.perform step = done at hstepped
  cases hstepped with
  | adopted child => exact .kept (fun i => rfl) rfl
  | forked reply => exact .kept (fun i => rfl) rfl
  | unknown reply _ | refused reply _ _ =>
    refine .of_children (fun i => ?_) rfl rfl
    cases reply with
    | error e => rfl
    | ok status => exact Bool.and_false _
  | failed e _ _ => exact .of_children (fun i => rfl) rfl rfl
  | reaped status hc hr =>
    refine .reaped rfl hc hr ?_ rfl rfl
    cases WaitStatus.exitCode status <;> rfl
  | asked path launch =>
    refine .of_children (fun i => rfl) ?_ rfl
    cases Program.launch? [⟨path, launch⟩] path <;> rfl
  | buffered | unbuffered | unspawned => exact .of_children (fun i => rfl) rfl rfl
  | spawned => exact .of_children (fun i => rfl) (Ending.made_map_outcome _) rfl

/-- **A child is changed by no step but a wait for it**, not even if it has the same pid. -/
theorem perform_of_other {index : Nat} {child : Child} (hc : table.children[index]? = some child)
    (hs : ∀ reply, step ≠ .wait index reply) :
    (table.perform step).table.children[index]? = some child := by
  cases table.perform_changed step with
  | kept _ hchildren =>
    obtain ⟨hlt, -⟩ := List.getElem?_eq_some_iff.mp hc
    rw [hchildren, List.getElem?_append_left hlt, hc]
  | @reaped i _ _ hstep _ _ _ _ hchildren =>
    have hne : i ≠ index := by
      rintro rfl
      exact hs _ hstep
    rw [hchildren, List.getElem?_set_ne hne, hc]

/-! ## Many steps -/

/-- A step leaves all children as they were made, but that it may reap one. -/
theorem created_perform {index : Nat} {child : Child}
    (hc : (table.created (step :: steps))[index]? = some child) :
    ((table.perform step).table.created steps)[index]? = some { child with
      reaped := child.reaped || step.returns index (table.perform step) } ∧
    (child.reaped = true → step.returns index (table.perform step) = false) := by
  cases table.perform_changed step with
  | kept hreturns hchildren =>
    rw [hreturns, Bool.or_false, created, hchildren, List.append_assoc, ← created_cons]
    exact ⟨hc, fun _ => rfl⟩
  | @reaped i status child' hstep hc' hr hmade hwait hchildren =>
    have hcreated : (table.perform step).table.created steps =
        (table.created (step :: steps)).set i { child' with reaped := true } := by
      obtain ⟨hlt, -⟩ := List.getElem?_eq_some_iff.mp hc'
      rw [created, hchildren, created_cons, hmade, List.nil_append, List.set_append_left _ _ hlt]
    have hreturns : step.returns index (table.perform step) = (i == index) := by
      rw [hstep] at hwait ⊢
      rw [Step.returns, hwait, Bool.and_true]
    rw [hcreated, hreturns]
    by_cases hi : i = index
    · -- the child at this place is the one that is reaped, and it is still as it was made
      subst hi
      obtain ⟨hlt, -⟩ := List.getElem?_eq_some_iff.mp hc
      obtain rfl : child' = child := by
        obtain ⟨hlt', -⟩ := List.getElem?_eq_some_iff.mp hc'
        rw [created_cons, List.getElem?_append_left hlt', hc'] at hc
        exact Option.some.inj hc
      rw [List.getElem?_set_self hlt, hr, beq_self_eq_true]
      exact ⟨rfl, nofun⟩
    · rw [List.getElem?_set_ne hi, hc, beq_eq_false_iff_ne.mpr hi, Bool.or_false]
      exact ⟨rfl, fun _ => rfl⟩

theorem length_created_perform (table : ProcessTable) (step : Step) (steps : List Step) :
    ((table.perform step).table.created steps).length = (table.created (step :: steps)).length := by
  rw [created_cons, created]
  cases table.perform_changed step with
  | kept _ hchildren => rw [hchildren, List.append_assoc]
  | reaped _ _ _ hmade _ hchildren =>
    rw [hchildren, hmade, List.nil_append, List.length_append, List.length_append, List.length_set]

theorem length_left_children (table : ProcessTable) (steps : List Step) :
    (table.left steps).children.length = (table.created steps).length := by
  induction steps generalizing table with
  | nil => exact congrArg List.length (List.append_nil table.children).symm
  | cons step steps ih => exact (ih _).trans (length_created_perform table step steps)

/-- **A child is reaped if it was made so, or if one wait for it has come back.**  No second one
does. -/
theorem left_children {index : Nat} {child : Child}
    (hc : (table.created steps)[index]? = some child) :
    table.returns steps index ≤ 1 ∧ (child.reaped = true → table.returns steps index = 0) ∧
    (table.left steps).children[index]? = some { child with
      reaped := child.reaped || decide (table.returns steps index = 1) } := by
  induction steps generalizing table child with
  | nil =>
    rw [created, performAll, List.flatMap_nil, List.append_nil] at hc
    refine ⟨Nat.zero_le 1, fun _ => rfl, ?_⟩
    rw [show decide (table.returns [] index = 1) = false from rfl, Bool.or_false]
    exact hc
  | cons step steps ih =>
    obtain ⟨hc', hkeeps⟩ := created_perform hc
    obtain ⟨hle, hzero, hleft⟩ := ih hc'
    rw [returns_cons]
    cases hreturns : step.returns index (table.perform step) with
    | false =>
      rw [hreturns, Bool.or_false] at hzero hleft
      exact ⟨hle, hzero, hleft⟩
    | true =>
      -- the first step has reaped the child, so no wait for it comes back later
      rw [hreturns, Bool.or_true] at hzero hleft
      rw [if_pos rfl, hzero rfl]
      refine ⟨Nat.le_refl 1, fun hr => ?_, ?_⟩
      · cases (hkeeps hr).symm.trans hreturns
      · rw [Nat.zero_add, decide_eq_true rfl, Bool.or_true]
        exact hleft

/-! ## Who is waited for -/

/-- There are no waits but those for a child that is known and not yet reaped, and those of a
command for the child that it has just made. -/
theorem of_mem_wait {pid options : Int} (he : .wait pid options ∈ (table.perform step).trace) :
    options = 0 ∧ ((∃ index reply child, step = .wait index reply ∧
        table.children[index]? = some child ∧ child.reaped = false ∧ child.pid = pid) ∨
      ∃ command reply launch, step = .spawn command reply launch ∧
        (table.perform step).trace.filter Event.isForking = [.fork pid] ∧
        (table.perform step).trace.filter Event.isWait = [.wait pid 0]) := by
  have hstepped := table.perform_stepped step
  generalize table.perform step = done at hstepped he ⊢
  have hmem : .wait pid options ∈ done.trace.filter Event.isWait := List.mem_filter.mpr ⟨he, rfl⟩
  cases hstepped with
  | adopted | unknown | refused | asked | buffered | unbuffered | unspawned => cases hmem
  | forked reply =>
    dsimp only at hmem
    rw [trace_fork, List.filter_append, Host.filter_pendingWrites fun _ _ => Bool.false_ne_true,
      List.filter_cons_of_neg (Host.isForking_attempt _).2] at hmem
    cases hmem
  | @failed index child e hc hr =>
    have hwait : options = 0 ∧ pid = child.pid := by simpa [and_comm] using he
    exact ⟨hwait.1, Or.inl ⟨index, _, child, rfl, hc, hr, hwait.2.symm⟩⟩
  | @reaped index child status hc hr =>
    have hwait : options = 0 ∧ pid = child.pid := by simpa [and_comm] using he
    exact ⟨hwait.1, Or.inl ⟨index, _, child, rfl, hc, hr, hwait.2.symm⟩⟩
  | @spawned command line reply launch =>
    dsimp only at hmem ⊢
    rw [Line.filter_spawn_isWait] at hmem
    obtain ⟨hoptions, hfork, hwait⟩ := Host.of_mem_awaited hmem
    refine ⟨hoptions, Or.inr ⟨command, reply, launch, rfl, ?_⟩⟩
    rw [Line.filter_spawn_isForking, Line.filter_spawn_isWait]
    exact ⟨hfork, hwait⟩

theorem left_of_child {index : Nat} {child : Child} (hc : table.children[index]? = some child)
    (steps : List Step) : ∃ child', (table.left steps).children[index]? = some child' ∧
      child'.pid = child.pid ∧ (child.reaped = true → child'.reaped = true) := by
  obtain ⟨hlt, -⟩ := List.getElem?_eq_some_iff.mp hc
  have hcreated : (table.created steps)[index]? = some child := by
    rw [created, List.getElem?_append_left hlt, hc]
  obtain ⟨-, -, hleft⟩ := left_children hcreated
  refine ⟨_, hleft, rfl, fun hr => ?_⟩
  show (child.reaped || _) = true
  rw [hr, Bool.true_or]

/-- **A child is reaped once.**

After any number of steps there are the children that were there before and those that were made
since, each with its pid.  One of them is reaped if it was made so or if a wait for it has come
back, and then no other wait for it does.

A wait for a child that is reaped is refused, and nothing is done.  Any other wait asks the system
for the pid of that child.  If that fails, everything is as it was, so that a later wait asks the
system again; if it comes back, the child is reaped, even if its status says nothing.  No step
changes a child that it does not wait for, and a reaped child stays reaped.  There are no other
waits but those of commands, each for the one child that it has just made, and all of them have the
options 0. -/
theorem reaped_once (table : ProcessTable) (steps : List Step) :
    (table.left steps).children.length = (table.created steps).length ∧
    (∀ index child, (table.created steps)[index]? = some child →
      table.returns steps index ≤ 1 ∧ (child.reaped = true → table.returns steps index = 0) ∧
      (table.left steps).children[index]? = some { child with
        reaped := child.reaped || decide (table.returns steps index = 1) }) ∧
    ∀ before step later, steps = before ++ step :: later →
      let now := table.left before
      (table.performAll steps)[before.length]? = some (now.perform step) ∧
      (∀ index reply child, step = .wait index reply → now.children[index]? = some child →
        (child.reaped = true → now.perform step = ⟨.fault (.reaped child.pid), [], now⟩) ∧
        (child.reaped = false →
          (∀ e, reply = .error e → now.perform step =
            ⟨.fault (.system e), [.wait child.pid 0, .waited child.pid], now⟩) ∧
          ∀ status, reply = .ok status → now.perform step =
            ⟨match WaitStatus.exitCode status with
              | .ok code => .value (.code code)
              | .error e => .fault (.status e), [.wait child.pid 0, .waited child.pid],
              { now with children := now.children.set index { child with reaped := true } }⟩)) ∧
      (∀ index child, now.children[index]? = some child →
        ((∀ reply, step ≠ .wait index reply) →
          (now.perform step).table.children[index]? = some child) ∧
        ∃ child', (table.left steps).children[index]? = some child' ∧ child'.pid = child.pid ∧
          (child.reaped = true → child'.reaped = true)) ∧
      ∀ pid options, .wait pid options ∈ (now.perform step).trace → options = 0 ∧
        ((∃ index reply child, step = .wait index reply ∧ now.children[index]? = some child ∧
            child.reaped = false ∧ child.pid = pid) ∨
          ∃ command reply launch, step = .spawn command reply launch ∧
            (now.perform step).trace.filter Event.isForking = [.fork pid] ∧
            (now.perform step).trace.filter Event.isWait = [.wait pid 0]) := by
  refine ⟨length_left_children table steps, fun index child => left_children, ?_⟩
  rintro before step later rfl
  refine ⟨getElem?_performAll table before step later, ?_, ?_, fun pid options => of_mem_wait⟩
  · rintro index reply child rfl hc
    refine ⟨fun hr => perform_wait_of_reaped hc hr reply, fun hr => ⟨?_, ?_⟩⟩
    · rintro e rfl
      exact perform_wait_of_error hc hr e
    · rintro status rfl
      exact perform_wait_of_status hc hr status
  · intro index child hc
    refine ⟨perform_of_other hc, ?_⟩
    rw [left_append]
    exact left_of_child hc (step :: later)

/-- Two children with one pid.  A wait for the first fails, the next one comes back with a status
that says nothing, and the third is refused; all that is nothing to the second child. -/
theorem reaped_once_of_stopped : ∃ (steps : List Step) (e : SystemError) (table : ProcessTable),
    steps = [.adopt { pid := 5 }, .adopt { pid := 5 }, .wait 0 (.error e), .wait 0 (.ok 0x7F),
      .wait 0 (.ok 0)] ∧ table = {} ∧
    (table.created steps)[0]? = some { pid := 5 } ∧ (table.created steps)[1]? = some { pid := 5 } ∧
    table.returns steps 0 = 1 ∧ table.returns steps 1 = 0 ∧
    (table.left steps).children[0]? = some { pid := 5, reaped := true } ∧
    (table.left steps).children[1]? = some { pid := 5 } ∧
    ((table.performAll steps)[2]?.map fun done => (done.ending, done.trace)) =
      some (.fault (.system e), [.wait 5 0, .waited 5]) ∧
    ((table.performAll steps)[3]?.map fun done => (done.ending, done.trace)) =
      some (.fault (.status (.stopped 0)), [.wait 5 0, .waited 5]) ∧
    ((table.performAll steps)[4]?.map fun done => (done.ending, done.trace)) =
      some (.fault (.reaped 5), []) := by
  let e : SystemError := .ofNumber 4
  let adopted : List Step := [.adopt { pid := 5 }, .adopt { pid := 5 }]
  let steps : List Step := adopted ++ [.wait 0 (.error e), .wait 0 (.ok 0x7F), .wait 0 (.ok 0)]
  let table : ProcessTable := {}
  obtain ⟨-, hchildren, hsteps⟩ := reaped_once table steps
  obtain ⟨-, -, hfirst⟩ := hchildren 0 { pid := 5 } rfl
  obtain ⟨-, -, hsecond⟩ := hchildren 1 { pid := 5 } rfl
  obtain ⟨hfailing, hfailed, -⟩ := hsteps adopted (.wait 0 (.error e)) _ rfl
  have hfailed := ((hfailed 0 _ { pid := 5 } rfl rfl).2 rfl).1 e rfl
  obtain ⟨hstopping, hstopped, -⟩ :=
    hsteps (adopted ++ [.wait 0 (.error e)]) (.wait 0 (.ok 0x7F)) _ rfl
  have hstopped := ((hstopped 0 _ { pid := 5 } rfl rfl).2 rfl).2 0x7F rfl
  obtain ⟨hrefusing, hrefused, -⟩ :=
    hsteps (adopted ++ [.wait 0 (.error e), .wait 0 (.ok 0x7F)]) (.wait 0 (.ok 0)) [] rfl
  have hrefused := (hrefused 0 _ { pid := 5, reaped := true } rfl rfl).1 rfl
  refine ⟨steps, e, table, rfl, rfl, rfl, rfl, rfl, rfl, hfirst, hsecond, ?_, ?_, ?_⟩
  · exact congrArg (Option.map _) (hfailing.trans (congrArg some hfailed))
  · exact congrArg (Option.map _) (hstopping.trans (congrArg some hstopped))
  · exact congrArg (Option.map _) (hrefusing.trans (congrArg some hrefused))

end ProcessTable

end LineShell
