import LineShell.Host.Input

/-!
# Events

What a run does to the world around it, in order.

* `Event`, `Trace`: who reads and writes what, processes made, replaced, waited for and ended, and
  log records.
* `Trace.written`: all that went to one stream.
* `Trace.joined`: the same trace with each run of writes to one stream made one write; each stream
  gets the same (`Trace.written_joined`).
* `Trace.observed`: what can be seen from outside.
* `Trace.logged`: the trace with its log on standard error.
-/

namespace LineShell

inductive Stream
  | output
  | errors
deriving DecidableEq, Repr

/-- Who acts: the shell, or the child that it waits for. -/
inductive Actor
  | shell
  | child
deriving DecidableEq, Repr

inductive Level
  | debug
  | warning
deriving DecidableEq, Repr

def Level.name : Level → String
  | .debug => "DEBUG"
  | .warning => "WARNING"

/-- A record of the log: the part of the shell that speaks, how much it matters, what it says. -/
structure Record where
  logger : String
  level : Level
  text : Text
deriving DecidableEq, Repr

def Record.line (r : Record) : Text :=
  .ofString r.logger ++ .ofString " " ++ .ofString r.level.name ++ .ofString ": " ++ r.text ++
    [.lineFeed]

inductive Event
  /-- Bytes reach a stream. -/
  | write (actor : Actor) (stream : Stream) (bytes : Bytes)
  /-- Bytes are taken from standard input, until something stops the reader. -/
  | read (actor : Actor) (bytes : Bytes) (stop : Input.Stop)
  /-- A child is made. -/
  | fork (pid : Int)
  /-- No child could be made. -/
  | forkFailure (number : Int)
  /-- The shell begins to wait for a child.  With the options 0 it waits until the child has
  ended. -/
  | wait (pid options : Int)
  /-- The wait for a child is over. -/
  | waited (pid : Int)
  /-- A process asks to become another program. -/
  | exec (path : Bytes) (arguments : List Bytes)
  /-- A process ends itself. -/
  | exit (code : Int)
  | log (record : Record)
deriving DecidableEq, Repr

abbrev Trace := List Event

/-- The event of writing some bytes.  Writing none is no event. -/
def Event.writes (actor : Actor) (stream : Stream) (bytes : Bytes) : Trace :=
  if bytes.isEmpty then [] else [.write actor stream bytes]

namespace Trace

def written (stream : Stream) (t : Trace) : Bytes :=
  t.flatMap fun
    | .write _ s bytes => if s = stream then bytes else []
    | _ => []

def taken (t : Trace) : Bytes :=
  t.flatMap fun
    | .read _ bytes _ => bytes
    | _ => []

def consJoined (e : Event) (t : Trace) : Trace :=
  match e, t with
  | .write actor s bytes, .write _ s' bytes' :: rest =>
    if s = s' then .write actor s (bytes ++ bytes') :: rest else e :: t
  | _, _ => e :: t

def joined (t : Trace) : Trace := t.foldr consJoined []

/-- Whether an event can be seen from outside: what is read and the end of a wait cannot, nor can a
record below a warning. -/
def isObservable : Event → Bool
  | .read _ _ _ | .waited _ => false
  | .log record => record.level = .warning
  | _ => true

def observed (t : Trace) : Trace := joined (t.filter isObservable)

/-- Records of the levels from `least` on are written to standard error, the others are dropped. -/
def logged (least : Level) (t : Trace) : Trace :=
  t.flatMap fun
    | .log r =>
      if least = .debug || r.level = .warning then [.write .shell .errors r.line.spell] else []
    | e => [e]

/-! ### Streams of longer traces -/

theorem written_append (stream : Stream) (t u : Trace) :
    written stream (t ++ u) = written stream t ++ written stream u := List.flatMap_append

theorem taken_append (t u : Trace) : taken (t ++ u) = taken t ++ taken u := List.flatMap_append

theorem written_consJoined (stream : Stream) (e : Event) (t : Trace) :
    written stream (consJoined e t) = written stream (e :: t) := by
  unfold consJoined
  split
  · split
    · rename_i h
      subst h
      by_cases hs : ‹Stream› = stream <;> simp [written, hs]
    · rfl
  · rfl

/-- Joining writes leaves what goes to each stream as it is. -/
theorem written_joined (stream : Stream) (t : Trace) :
    written stream t.joined = written stream t := by
  induction t with
  | nil => rfl
  | cons e t ih =>
    have h : joined (e :: t) = consJoined e (joined t) := rfl
    rw [h, written_consJoined, written, List.flatMap_cons, written, List.flatMap_cons]
    congr 1

end Trace

end LineShell
