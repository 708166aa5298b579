import LineShell.Config.Basic
import LineShell.Session.Progress

/-!
# Sessions

A **session** prompts for commands and runs them, one after the other, until its input ends.

* `Session`, `Report`: the state between two runs, and what a run says of itself.
* `Session.round`: one prompt, and the command that answers it.
* `Session.rounds`: rounds until the input ends.  Every round but the last takes at least one byte,
  so there are no more commands than bytes.
* `Session.run`: a banner and then the rounds.
-/

namespace LineShell

structure Session where
  config : Config := {}
  running : Bool := true

/-- How many commands a run has started on, and what became of the last. -/
structure Report where
  commands : Nat := 0
  last : Option Outcome := none
deriving DecidableEq, Repr

namespace Session

def echoLead : Text := .ofString "\n Running command: "

def showBanner (config : Config) : Action Unit :=
  if config.banner.isEmpty then pure ()
  else Action.write .shell .output (config.banner ++ [.lineFeed])

def showCommand (config : Config) (line : Line) : Action Unit :=
  if config.echo then Action.write .shell .output (echoLead ++ line.text ++ [.lineFeed])
  else pure ()

/-- How the command ended, if that is to be reported and there is something to report. -/
def showStatus (config : Config) (outcome : Outcome) : Action Unit :=
  match if config.reportStatus then outcome.statusLine? else none with
  | some status => Action.write .shell .errors status
  | none => pure ()

def dispatch (config : Config) (line : Line) : Action Outcome := do
  showCommand config line
  let outcome ← line.spawn
  showStatus config outcome
  return outcome

/-- Prompts once.  There is no outcome if the input has ended. -/
def round (config : Config) : Action (Option Outcome) := do
  Action.write .shell .output config.prompt
  match ← Line.read config.lineLimit with
  | .endOfStream => return none
  | .line line => some <$> dispatch config line

theorem consumes_dispatch (config : Config) (line : Line) : (dispatch config line).Consumes := by
  refine .bind ?_ fun _ => .bind line.consumes_spawn fun outcome => .bind ?_ fun _ => .pure _
  · unfold showCommand
    split
    · exact Action.consumes_write _ _ _
    · exact .pure _
  · unfold showStatus
    split
    · exact Action.consumes_write _ _ _
    · exact .pure _

/-- A round with a command takes something from the input. -/
theorem length_input_round {config : Config} {h : Host} {outcome : Outcome}
    (hr : (round config h).ending = .value (some outcome)) :
    (round config h).host.input.length < h.input.length := by
  obtain ⟨_, _, hr, hhost⟩ := Action.bind_eq_value hr
  rw [round, hhost]
  obtain ⟨reading, hread, hr, hhost⟩ := Action.bind_eq_value hr
  rw [hhost]
  cases reading with
  | endOfStream => cases hr
  | line line =>
    refine Nat.lt_of_le_of_lt (m := (Line.read config.lineLimit _).host.input.length) ?_
      (Nat.lt_of_lt_of_le (Line.length_input_read hread) (Action.consumes_write _ _ _ h))
    exact Action.Consumes.bind (consumes_dispatch _ _) (fun _ => .pure _) _

/-- Rounds until the input ends, after those that `report` counts. -/
def rounds (config : Config) (report : Report) (host : Host) : Result Report :=
  let r := round config host
  match _h : r.ending with
  | .value none => { ending := .value report, host := r.host, trace := r.trace }
  | .value (some outcome) =>
    let r' := rounds config { commands := report.commands + 1, last := some outcome } r.host
    { r' with trace := r.trace ++ r'.trace }
  | .fault f => { ending := .fault f, host := r.host, trace := r.trace }
  | .departure d => { ending := .departure d, host := r.host, trace := r.trace }
termination_by host.input.length
decreasing_by exact length_input_round _h

/-- Runs a session until its input ends; then it runs no longer.  One that does not run shows no
more than its banner. -/
def run (session : Session) : Action (Session × Report) := do
  showBanner session.config
  let report ← if session.running then rounds session.config {} else pure {}
  Action.log "labsh.shell.loop" .debug <|
    .ofString "input ended after " ++ .decimal report.commands ++ .ofString " commands"
  return ({ session with running := false }, report)

end Session

end LineShell
