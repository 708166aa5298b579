import LineShell.ProcessTable
import LineShell.Proofs.Command

/-!
# Steps on a process table

* `ProcessTable.left`: the table that some steps leave; `ProcessTable.getElem?_performAll`: each
  step is done on the table that the steps before it leave.
* `ProcessTable.facing`: the host on which a step is done; `Ending.made`: the child that it makes.
* `ProcessTable.perform_fork`, `ProcessTable.perform_exec`, `ProcessTable.perform_buffer`,
  `ProcessTable.perform_spawn`: all that comes of a step on the host.
* `ProcessTable.perform_wait_of_none`, `ProcessTable.perform_wait_of_reaped`,
  `ProcessTable.perform_wait_of_error`, `ProcessTable.perform_wait_of_status`: all that comes of a
  wait.
* `ProcessTable.Stepped`, `ProcessTable.perform_stepped`: all that comes of any step.
-/

namespace LineShell

open LineShell.Action

def Ending.made : Ending ProcessTable.Answer → List Child
  | .value (.child child) | .value (.role (.parent child)) => [child]
  | _ => []

theorem Ending.made_map_outcome (e : Ending Outcome) :
    (e.map ProcessTable.Answer.outcome).made = [] := by cases e <;> rfl

namespace ProcessTable

/-! ## Many steps -/

def left (table : ProcessTable) : List Step → ProcessTable
  | [] => table
  | step :: steps => left (table.perform step).table steps

theorem left_append (table : ProcessTable) (steps steps' : List Step) :
    table.left (steps ++ steps') = (table.left steps).left steps' := by
  induction steps generalizing table with
  | nil => rfl
  | cons step steps ih => exact ih (table.perform step).table

theorem performAll_append (table : ProcessTable) (steps steps' : List Step) :
    table.performAll (steps ++ steps') =
      table.performAll steps ++ (table.left steps).performAll steps' := by
  induction steps generalizing table with
  | nil => rfl
  | cons step steps ih => exact congrArg (table.perform step :: ·) (ih (table.perform step).table)

theorem length_performAll (table : ProcessTable) (steps : List Step) :
    (table.performAll steps).length = steps.length := by
  induction steps generalizing table with
  | nil => rfl
  | cons step steps ih => exact congrArg (· + 1) (ih (table.perform step).table)

/-- Each step is done on the table that the steps before it leave. -/
theorem getElem?_performAll (table : ProcessTable) (before : List Step) (step : Step)
    (later : List Step) : (table.performAll (before ++ step :: later))[before.length]? =
      some ((table.left before).perform step) := by
  rw [performAll_append, List.getElem?_append_right (length_performAll table before).le,
    length_performAll, Nat.sub_self]
  rfl

/-! ## Steps on the host -/

/-- The host on which a step is done: it has the answers of the system to that step. -/
def facing (table : ProcessTable) : Step → Host
  | .fork reply => { table.host with forks := [reply] }
  | .exec path launch => { table.host with programs := [⟨path, launch⟩] }
  | .spawn command reply launch =>
    { table.host with forks := [reply], programs := [⟨command, launch⟩] }
  | _ => table.host

variable (table : ProcessTable)

theorem onHost_eq (h : Host) (x : Action Answer) :
    table.onHost h x = ⟨(x h).ending, (x h).trace, { table with host := (x h).host }⟩ := rfl

theorem perform_fork (reply : ForkReply) : table.perform (.fork reply) =
    let r := Action.fork (table.facing (.fork reply))
    ⟨r.ending.map .role, r.trace, ⟨r.host, table.children ++ (r.ending.map Answer.role).made⟩⟩ := by
  rw [perform]
  dsimp only
  rw [onHost_eq, map_apply]
  rw [facing]
  cases (Action.fork { table.host with forks := [reply] }).ending with
  | value role =>
    cases role with
    | child => simp [Ending.map, Ending.made]
    | parent child => rfl
  | fault | departure => simp [Ending.map, Ending.made]

theorem perform_exec (path : Bytes) (launch : Except LaunchError Image) :
    table.perform (.exec path launch) =
      ⟨match Program.launch? [⟨path, launch⟩] path with
        | .ok image => .departure (.replaced image)
        | .error e => .fault (.launch e), [.exec path [path]],
        { table with host := table.facing (.exec path launch) }⟩ := by
  rw [perform, onHost_eq, bind_apply, exec_apply]
  cases Program.launch? [⟨path, launch⟩] path <;> rfl

theorem perform_buffer_of_encodable {text : Text} (ht : text.Encodable) (stream : Stream) :
    table.perform (.buffer stream text) = ⟨.value .nothing, [], { table with
      host := table.host.setPending stream (table.host.pending stream ++ text.coded) }⟩ := by
  rw [perform, Text.encode_eq_ok ht]
  rfl

theorem perform_buffer_of_not_encodable {text : Text} (ht : ¬ text.Encodable) (stream : Stream) :
    ∃ place, table.perform (.buffer stream text) = ⟨.fault (.unencodable place), [], table⟩ := by
  obtain ⟨place, hplace⟩ := Text.encode_eq_error ht
  rw [perform, hplace]
  exact ⟨place, rfl⟩

/-- A text that is no command is not run. -/
theorem perform_spawn_of_none {command : Bytes} (hc : Line.ofBytes? command false = none)
    (reply : ForkReply) (launch : Except LaunchError Image) :
    table.perform (.spawn command reply launch) = ⟨.fault .terminator, [], table⟩ := by
  rw [perform, hc]
  rfl

theorem perform_spawn {command : Bytes} {line : Line}
    (hc : Line.ofBytes? command false = some line) (reply : ForkReply)
    (launch : Except LaunchError Image) : table.perform (.spawn command reply launch) =
      let r := line.spawn (table.facing (.spawn command reply launch))
      ⟨r.ending.map .outcome, r.trace, { table with host := r.host }⟩ := by
  rw [perform, hc]
  dsimp only
  rw [onHost_eq, map_apply, facing]

/-! ## Waits -/

section

variable {table : ProcessTable} {index : Nat} {child : Child}

theorem perform_wait_of_none (hc : table.children[index]? = none)
    (reply : Except SystemError Int) :
    table.perform (.wait index reply) = ⟨.value .nothing, [], table⟩ := by
  rw [perform, wait, hc]

/-- A child that is reaped is not waited for again. -/
theorem perform_wait_of_reaped (hc : table.children[index]? = some child)
    (hr : child.reaped = true) (reply : Except SystemError Int) :
    table.perform (.wait index reply) = ⟨.fault (.reaped child.pid), [], table⟩ := by
  have ha : child.await (pure reply) table.host = ⟨.fault (.reaped child.pid), table.host, []⟩ := by
    rw [Child.await, hr, if_pos rfl]
    rfl
  rw [perform, wait, hc]
  dsimp only
  rw [ha]

/-- A wait that fails changes nothing. -/
theorem perform_wait_of_error (hc : table.children[index]? = some child)
    (hr : child.reaped = false) (e : SystemError) : table.perform (.wait index (.error e)) =
      ⟨.fault (.system e), [.wait child.pid 0, .waited child.pid], table⟩ := by
  have ha := Child.await_of_error (h := table.host) hr (pure_apply (Except.error e) _)
  rw [perform, wait, hc]
  dsimp only
  rw [ha]
  rfl

theorem perform_wait_of_status (hc : table.children[index]? = some child)
    (hr : child.reaped = false) (status : Int) : table.perform (.wait index (.ok status)) =
      ⟨match WaitStatus.exitCode status with
        | .ok code => .value (.code code)
        | .error e => .fault (.status e), [.wait child.pid 0, .waited child.pid],
        { table with children := table.children.set index { child with reaped := true } }⟩ := by
  have ha := Child.await_of_status (h := table.host) hr (pure_apply (Except.ok status) _)
  rw [perform, wait, hc]
  dsimp only
  rw [ha]
  rfl

end

/-! ## Any step -/

inductive Stepped (table : ProcessTable) : Step → Performed → Prop
  | adopted (child : Child) : Stepped table (.adopt child)
      ⟨.value (.child child), [], { table with children := table.children ++ [child] }⟩
  | forked (reply : ForkReply) : Stepped table (.fork reply)
      (let r := Action.fork (table.facing (.fork reply))
      ⟨r.ending.map .role, r.trace, ⟨r.host, table.children ++ (r.ending.map Answer.role).made⟩⟩)
  /-- There is no such child. -/
  | unknown {index : Nat} (reply : Except SystemError Int) : table.children[index]? = none →
      Stepped table (.wait index reply) ⟨.value .nothing, [], table⟩
  /-- The child was waited for before. -/
  | refused {index : Nat} {child : Child} (reply : Except SystemError Int) :
      table.children[index]? = some child → child.reaped = true →
      Stepped table (.wait index reply) ⟨.fault (.reaped child.pid), [], table⟩
  /-- The wait fails. -/
  | failed {index : Nat} {child : Child} (e : SystemError) :
      table.children[index]? = some child → child.reaped = false →
      Stepped table (.wait index (.error e))
        ⟨.fault (.system e), [.wait child.pid 0, .waited child.pid], table⟩
  /-- The wait comes back. -/
  | reaped {index : Nat} {child : Child} (status : Int) :
      table.children[index]? = some child → child.reaped = false →
      Stepped table (.wait index (.ok status))
        ⟨match WaitStatus.exitCode status with
          | .ok code => .value (.code code)
          | .error e => .fault (.status e), [.wait child.pid 0, .waited child.pid],
          { table with children := table.children.set index { child with reaped := true } }⟩
  | asked (path : Bytes) (launch : Except LaunchError Image) : Stepped table (.exec path launch)
      ⟨match Program.launch? [⟨path, launch⟩] path with
        | .ok image => .departure (.replaced image)
        | .error e => .fault (.launch e), [.exec path [path]],
        { table with host := table.facing (.exec path launch) }⟩
  | buffered (stream : Stream) {text : Text} : text.Encodable → Stepped table (.buffer stream text)
      ⟨.value .nothing, [], { table with
        host := table.host.setPending stream (table.host.pending stream ++ text.coded) }⟩
  /-- The text cannot be encoded. -/
  | unbuffered (stream : Stream) {text : Text} (place : Utf8.Unencodable) : ¬ text.Encodable →
      Stepped table (.buffer stream text) ⟨.fault (.unencodable place), [], table⟩
  /-- The text is no command. -/
  | unspawned {command : Bytes} (reply : ForkReply) (launch : Except LaunchError Image) :
      Line.ofBytes? command false = none →
      Stepped table (.spawn command reply launch) ⟨.fault .terminator, [], table⟩
  | spawned {command : Bytes} {line : Line} (reply : ForkReply)
      (launch : Except LaunchError Image) : Line.ofBytes? command false = some line →
      Stepped table (.spawn command reply launch)
        (let r := line.spawn (table.facing (.spawn command reply launch))
        ⟨r.ending.map .outcome, r.trace, { table with host := r.host }⟩)

theorem perform_stepped (table : ProcessTable) (step : Step) :
    Stepped table step (table.perform step) := by
  cases step with
  | adopt child => exact .adopted child
  | fork reply =>
    rw [perform_fork]
    exact .forked reply
  | wait index reply =>
    cases hc : table.children[index]? with
    | none =>
      rw [perform_wait_of_none hc]
      exact .unknown reply hc
    | some child =>
      cases hr : child.reaped with
      | true =>
        rw [perform_wait_of_reaped hc hr]
        exact .refused reply hc hr
      | false =>
        cases reply with
        | error e =>
          rw [perform_wait_of_error hc hr]
          exact .failed e hc hr
        | ok status =>
          rw [perform_wait_of_status hc hr]
          exact .reaped status hc hr
  | exec path launch =>
    rw [perform_exec]
    exact .asked path launch
  | buffer stream text =>
    by_cases ht : text.Encodable
    · rw [perform_buffer_of_encodable table ht]
      exact .buffered stream ht
    · obtain ⟨place, hp⟩ := perform_buffer_of_not_encodable table ht stream
      rw [hp]
      exact .unbuffered stream place ht
  | spawn command reply launch =>
    cases hc : Line.ofBytes? command false with
    | none =>
      rw [perform_spawn_of_none table hc]
      exact .unspawned reply launch hc
    | some line =>
      rw [perform_spawn table hc]
      exact .spawned reply launch hc

end ProcessTable

end LineShell
