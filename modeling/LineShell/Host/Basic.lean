import LineShell.Host.Event
import LineShell.Host.Program
import LineShell.Fault

/-!
# The host and actions on it

The **host** is all of the system that the shell depends on and changes.  An **action** runs on a
host; whatever way it ends, it leaves a host and the trace of what it did.

* `Host`: input, programs, replies to forks, and output that is not yet written.
* `Ending`: a value, a fault, or the departure of the process itself.
* `Action`: a lawful monad; a sequence stops where one of its parts does.
* `Action.emit`, `Action.log`, `Action.raise`, `Action.liftExcept`, `Action.attempt`: its parts.
* `Action.write`, `Action.buffer`, `Action.flush`: output; `Action.takeInput`: input.
-/

namespace LineShell

/-- What the system answers to a fork.  The pid zero is the answer that the child gets. -/
inductive ForkReply
  | nextPid
  | pid (pid : Int)
  | failure (error : SystemError)
deriving DecidableEq, Repr

/-- The system as the shell sees it.  When `forks` is used up, every fork gets the next pid.  The
`pending` output of the shell waits until its stream is flushed. -/
structure Host where
  input : Input := []
  programs : List Program := []
  forks : List ForkReply := []
  nextPid : Int := 100
  pendingOutput : Bytes := []
  pendingErrors : Bytes := []

namespace Host

def pending (host : Host) : Stream → Bytes
  | .output => host.pendingOutput
  | .errors => host.pendingErrors

def setPending (host : Host) (stream : Stream) (bytes : Bytes) : Host :=
  match stream with
  | .output => { host with pendingOutput := bytes }
  | .errors => { host with pendingErrors := bytes }

end Host

inductive Departure
  | replaced (image : Image)
  | exited (code : Int)

inductive Ending (α : Type)
  | value (a : α)
  | fault (f : Fault)
  | departure (d : Departure)

structure Result (α : Type) where
  ending : Ending α
  host : Host
  trace : Trace := []

def Action (α : Type) : Type := Host → Result α

namespace Action

protected def pure (a : α) : Action α := fun host => { ending := .value a, host }

/-- Does one thing, and then with its value another.  The second is not begun unless the first ends
with a value. -/
protected def bind (x : Action α) (f : α → Action β) : Action β := fun host =>
  let r := x host
  match r.ending with
  | .value a => let r' := f a r.host; { r' with trace := r.trace ++ r'.trace }
  | .fault e => { ending := .fault e, host := r.host, trace := r.trace }
  | .departure d => { ending := .departure d, host := r.host, trace := r.trace }

instance : Monad Action where
  pure := Action.pure
  bind := Action.bind

theorem pure_apply (a : α) (h : Host) : (pure a : Action α) h = ⟨.value a, h, []⟩ := rfl

theorem bind_apply (x : Action α) (f : α → Action β) (h : Host) :
    (x >>= f) h = match (x h).ending with
      | .value a => { f a (x h).host with trace := (x h).trace ++ (f a (x h).host).trace }
      | .fault e => { ending := .fault e, host := (x h).host, trace := (x h).trace }
      | .departure d => { ending := .departure d, host := (x h).host, trace := (x h).trace } :=
  rfl

instance : LawfulMonad Action := LawfulMonad.mk' Action
  (fun x => by
    funext h
    change Action.bind x _ h = x h
    unfold Action.bind
    generalize hr : x h = r
    obtain ⟨ending, host, trace⟩ := r
    cases ending <;> simp [Function.comp, Action.pure])
  (fun _ _ => rfl)
  (fun x f g => by
    funext h
    simp only [bind_apply]
    cases (x h).ending with
    | value a =>
      dsimp only
      cases (f a (x h).host).ending <;> simp only [List.append_assoc]
    | fault e => rfl
    | departure d => rfl)

/-- A sequence ends with a value only if all its parts do. -/
theorem bind_eq_value {x : Action α} {f : α → Action β} {h : Host} {b : β}
    (hb : ((x >>= f) h).ending = .value b) :
    ∃ a, (x h).ending = .value a ∧ (f a (x h).host).ending = .value b ∧
      ((x >>= f) h).host = (f a (x h).host).host := by
  rw [bind_apply] at hb ⊢
  cases hx : (x h).ending with
  | value a => rw [hx] at hb; exact ⟨a, rfl, hb, rfl⟩
  | fault e => rw [hx] at hb; cases hb
  | departure d => rw [hx] at hb; cases hb

/-! ## Parts -/

def emits (events : Trace) : Action Unit := fun host =>
  { ending := .value (), host, trace := events }

def emit (event : Event) : Action Unit := emits [event]

def host : Action Host := fun host => { ending := .value host, host }

def raise (f : Fault) : Action α := fun host => { ending := .fault f, host }

def depart (d : Departure) : Action α := fun host => { ending := .departure d, host }

def liftExcept (toFault : ε → Fault) : Except ε α → Action α
  | .ok a => pure a
  | .error e => raise (toFault e)

def log (logger : String) (level : Level) (text : Text) : Action Unit :=
  emit (.log ⟨logger, level, text⟩)

/-- A fault becomes a value, and the action goes on. -/
def attempt (x : Action α) : Action (Except Fault α) := fun host =>
  let r := x host
  { r with ending := match r.ending with
    | .value a => .value (.ok a)
    | .fault f => .value (.error f)
    | .departure d => .departure d }

/-- A departure becomes a value: this is what another process sees of it. -/
def departing (x : Action Empty) : Action Departure := fun host =>
  let r := x host
  { r with ending := match r.ending with
    | .value a => nomatch a
    | .fault f => .fault f
    | .departure d => .value d }

/-! ## Output -/

def buffer (stream : Stream) (bytes : Bytes) : Action Unit := fun host =>
  { ending := .value (), host := host.setPending stream (host.pending stream ++ bytes) }

def flush (actor : Actor) (stream : Stream) : Action Unit := fun host =>
  { ending := .value ()
    host := host.setPending stream []
    trace := Event.writes actor stream (host.pending stream) }

/-- Bytes are written at once, after all that waited. -/
def writeBytes (actor : Actor) (stream : Stream) (bytes : Bytes) : Action Unit := do
  buffer stream bytes
  flush actor stream

/-- A text is written at once; one that cannot be encoded is a fault, and nothing is written. -/
def write (actor : Actor) (stream : Stream) (text : Text) : Action Unit := do
  writeBytes actor stream (← liftExcept .unencodable text.encode)

/-! ## Input -/

def setInput (input : Input) : Action Unit := fun host =>
  { ending := .value (), host := { host with input } }

/-- Takes from standard input what a quota allows.  What was taken before an interrupt or a failing
read is lost. -/
def takeInput (actor : Actor) (q : Quota) : Action Bytes := do
  let taken := Input.take q (← host).input
  setInput taken.rest
  emit (.read actor taken.bytes taken.stop)
  match taken.stop with
  | .interrupt => raise .interrupted
  | .failure e => raise (.system e)
  | _ => pure taken.bytes

theorem takeInput_apply (a : Actor) (q : Quota) (h : Host) :
    takeInput a q h =
      { ending := match (h.input.take q).stop with
          | .interrupt => .fault .interrupted
          | .failure e => .fault (.system e)
          | _ => .value (h.input.take q).bytes
        host := { h with input := (h.input.take q).rest }
        trace := [.read a (h.input.take q).bytes (h.input.take q).stop] } := by
  simp only [takeInput, bind_apply, host, setInput, emit, emits]
  generalize Input.take q h.input = taken
  obtain ⟨bytes, stop, rest⟩ := taken
  cases stop <;> rfl

end Action

end LineShell
