import LineShell.Options.Usage
import LineShell.Session

/-!
# Runs from the command line

* `Invocation`: all that a run is started with.
* `Invocation.serve`: what it does once its options are known.
* `Invocation.run`: the whole run; its value is the exit code.
-/

namespace LineShell

structure Invocation where
  arguments : List Text := []
  environment : Environment
  files : Files
  defaultFile : Path
  homes : Text → Option Text := fun _ => none
  room : Nat := Json.usualRoom
  canFork : Bool := true

/-- An action whose log goes to standard error, from a level on. -/
def Action.logging (least : Level) (x : Action α) : Action α := fun host =>
  let r := x host
  { r with trace := r.trace.logged least }

namespace Invocation

def sources (i : Invocation) (o : Options) : Sources where
  environment := i.environment
  files := i.files
  defaultFile := i.defaultFile
  homes := i.homes
  room := i.room
  given := o.layer

/-- Writes what went wrong to standard error; surrogates are spelled out. -/
def complain (text : Text) : Action Unit := Action.writeBytes .shell .errors text.spell

def session (config : Config) : Action Nat := do
  match ← (Session.run { config }).attempt with
  | .ok (_, report) =>
    Action.log "labsh" .debug <|
      .ofString "ran " ++ .decimal report.commands ++ .ofString " commands"
    return 0
  | .error .interrupted =>
    complain [.lineFeed]
    return 130
  | .error f => .raise f

/-- Loads the settings and runs a session.  A bad configuration is told, and no session begins. -/
def serve (i : Invocation) (o : Options) : Action Nat := do
  if !i.canFork then
    complain (.ofString "Error: labsh requires a POSIX environment\n")
    return 1
  Action.emits ((Config.records (i.sources o)).map .log)
  match Config.load (i.sources o) with
  | .ok config => session config
  | .error (.bad e) =>
    complain (.ofString "Error: " ++ e.message ++ [.lineFeed])
    return 2
  | .error e => .raise (.load e)

def run (i : Invocation) : Action Nat :=
  match Options.ofArguments i.arguments with
  | .ok o => (i.serve o).logging (if o.debug then .debug else .warning)
  | .error .help => do
    Action.write .shell .output Options.help
    return 0
  | .error .version => do
    Action.write .shell .output Options.version
    return 0
  | .error (.misuse m) => do
    complain (Options.complaint m)
    return 2

end Invocation

end LineShell
