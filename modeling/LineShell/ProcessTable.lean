import LineShell.Child

/-!
# Tables of processes

Children can be made and waited for one at a time and in any order.  A **process table** keeps the
children that were made, in order, together with the host.

* `ProcessTable.Step`: one thing to do, with the answers of the system to it.
* `ProcessTable.perform`: doing it.
* `ProcessTable.performAll`: doing many things in order.
-/

namespace LineShell

/-- The children that are known, and the host on which they were made. -/
structure ProcessTable where
  host : Host := {}
  children : List Child := []

namespace ProcessTable

/-- One thing to do.  `reply` is what the system answers to the fork, `launch` what it answers to
the request for a program, and `ending` what it answers to the wait.  A command is spawned as by
`Line.spawn`, whose reports go to the standard error of the process; a stream that is named for them
is taken to be that one. -/
inductive Step
  | adopt (child : Child)
  | fork (reply : ForkReply)
  | wait (index : Nat) (ending : Except SystemError Int)
  | exec (path : Bytes) (launch : Except LaunchError Image)
  | buffer (stream : Stream) (text : Text)
  | spawn (command : Bytes) (reply : ForkReply) (launch : Except LaunchError Image)

inductive Answer
  | child (child : Child)
  | role (role : Role)
  | code (code : Int)
  | outcome (outcome : Outcome)
  | nothing

structure Performed where
  ending : Ending Answer
  trace : Trace
  table : ProcessTable

/-- Does something on the host that leaves the children as they are. -/
def onHost (table : ProcessTable) (host : Host) (x : Action Answer) : Performed :=
  let r := x host
  { ending := r.ending, trace := r.trace, table := { table with host := r.host } }

/-- Waits for a child.  Only that child changes, and only if the wait comes back. -/
def wait (table : ProcessTable) (index : Nat) (ending : Except SystemError Int) : Performed :=
  match table.children[index]? with
  | none => { ending := .value .nothing, trace := [], table }
  | some child =>
    let r := child.await (pure ending) table.host
    let table := { table with host := r.host }
    match r.ending with
    | .value (child, code) =>
      { ending := match code with
          | .ok code => .value (.code code)
          | .error e => .fault (.status e)
        trace := r.trace
        table := { table with children := table.children.set index child } }
    | .fault f => { ending := .fault f, trace := r.trace, table }
    | .departure d => { ending := .departure d, trace := r.trace, table }

def perform (table : ProcessTable) : Step → Performed
  | .adopt child =>
    { ending := .value (.child child), trace := []
      table := { table with children := table.children ++ [child] } }
  | .fork reply =>
    let done := table.onHost { table.host with forks := [reply] } (.role <$> Action.fork)
    match done.ending with
    | .value (.role (.parent child)) =>
      { done with table := { done.table with children := done.table.children ++ [child] } }
    | _ => done
  | .wait index ending => table.wait index ending
  | .exec path launch =>
    table.onHost { table.host with programs := [⟨path, launch⟩] } do
      nomatch ← Action.exec path
  | .buffer stream text =>
    table.onHost table.host do
      Action.buffer stream (← Action.liftExcept .unencodable text.encode)
      return .nothing
  | .spawn command reply launch =>
    let host := { table.host with forks := [reply], programs := [⟨command, launch⟩] }
    match Line.ofBytes? command false with
    | none => table.onHost table.host (.raise .terminator)
    | some line => table.onHost host (.outcome <$> line.spawn)

/-- Does many things in order; whatever one of them comes to, the next is done. -/
def performAll (table : ProcessTable) : List Step → List Performed
  | [] => []
  | step :: steps =>
    let done := table.perform step
    done :: done.table.performAll steps

end ProcessTable

end LineShell
