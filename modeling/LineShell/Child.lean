import LineShell.Host.Basic
import LineShell.Outcome

/-!
# Children

A command is run by a **child** of the shell: a copy of the shell that asks to become the program,
and that the shell waits for.

* `Child`, `Role`: a child that was made, and which side of a fork a process is on.
* `Action.fork`, `Action.exec`: making a child, becoming a program.
* `Child.await`: waiting for a child, once.
* `Image.run`: what a program does until it ends.
* `Line.become`: what a child does with its command; it never comes back.
* `Line.spawn`: a command from fork to outcome.
-/

namespace LineShell

/-- A child that was made.  It is **reaped** once a wait for it has come back. -/
structure Child where
  pid : Int
  reaped : Bool := false
deriving DecidableEq, Repr

inductive Role
  | child
  | parent (child : Child)
deriving DecidableEq, Repr

namespace Action

/-- The next answer of the system to a fork.  Only an answer that leaves the pid open uses one
up. -/
def nextReply : Action (Except SystemError Int) := fun host =>
  match host.forks with
  | .pid n :: forks => { ending := .value (.ok n), host := { host with forks } }
  | .failure e :: forks => { ending := .value (.error e), host := { host with forks } }
  | .nextPid :: forks =>
    { ending := .value (.ok host.nextPid)
      host := { host with forks, nextPid := host.nextPid + 1 } }
  | [] =>
    { ending := .value (.ok host.nextPid), host := { host with nextPid := host.nextPid + 1 } }

/-- Makes a child.  What waits to be written is written first, or both sides would write it. -/
def fork : Action Role := do
  flush .shell .output
  flush .shell .errors
  match ← nextReply with
  | .error e =>
    emit (.forkFailure e.number)
    raise (.childless e)
  | .ok pid =>
    emit (.fork pid)
    return if pid = 0 then .child else .parent { pid }

/-- Becomes the program at a path, which is also its only argument. -/
def exec (path : Bytes) : Action Empty := do
  emit (.exec path [path])
  match Program.launch? (← host).programs path with
  | .ok image => depart (.replaced image)
  | .error e => raise (.launch e)

end Action

/-- Waits for a child; `life` is all that the child does until it ends, and the wait status that it
leaves, or the error that the wait fails with.  Once the wait has come back the child is reaped,
even if its status says nothing. -/
def Child.await (child : Child) (life : Action (Except SystemError Int)) :
    Action (Child × Except WaitStatus.Error Int) := do
  if child.reaped then
    .raise (.reaped child.pid)
  else
    Action.emit (.wait child.pid 0)
    let status ← life
    Action.emit (.waited child.pid)
    let status ← Action.liftExcept .system status
    return ({ child with reaped := true }, WaitStatus.exitCode status)

/-- What a program does, and what waiting for it gives.  A program that reads writes what it read,
even if that is nothing. -/
def Image.run (image : Image) : Action (Except SystemError Int) := do
  if let some quota := image.reads then
    Action.emit (.write .child .output (← Action.takeInput .child quota))
  Action.emits (Event.writes .child .output image.output)
  Action.emits (Event.writes .child .errors image.errors)
  return image.ending

namespace Line

def failureCode : Int := 1

/-- What the child does with its command: it becomes the program, or it reports why it could not and
exits.  Whatever happens on the way, it does not come back. -/
def become (line : Line) : Action Empty := do
  let report : Action Unit := do
    match ← (Action.exec line.bytes).attempt with
    | .error (.launch e) =>
      if let some reason := e.reason? then
        Action.write .child .errors <|
          .ofString "exec failed: " ++ line.text ++ .ofString ": " ++ reason ++ [.lineFeed]
    | _ => pure ()
  let _ ← report.attempt
  Action.emit (.exit failureCode)
  Action.depart (.exited failureCode)

def life (line : Line) : Action (Except SystemError Int) := do
  match ← line.become.departing with
  | .replaced image => image.run
  | .exited code => return .ok (0x100 * code)

/-- Runs a command and waits for it.  The line is not split: it is the path of the program.  If no
child can be made, that is reported and the outcome has no pid.

A caller may name the stream that the reports go to.  That parameter is left out: a stream that is
named is taken to be the standard error of the process, to which they go when none is named. -/
def spawn (line : Line) : Action Outcome := do
  let debug := Action.log "labsh.shell.supervisor" .debug
  match ← Action.fork.attempt with
  | .error (.childless e) =>
    debug <| .ofString "fork failed for " ++ line.text.quoted ++ .ofString ": " ++ e.message
    Action.write .shell .errors <| .ofString "fork failed: " ++ e.message ++ [.lineFeed]
    return { command := line.text }
  | .error f => .raise f
  | .ok .child => return nomatch ← line.become
  | .ok (.parent child) =>
    let pid : Text := .ofInt child.pid
    debug <| .ofString "spawned pid " ++ pid ++ .ofString " for " ++ line.text.quoted
    let (_, code) ← child.await line.life
    let code ← Action.liftExcept .status code
    debug <| .ofString "pid " ++ pid ++ .ofString " exited with " ++ .ofInt code
    return { command := line.text, pid := child.pid, code }

end Line

end LineShell
