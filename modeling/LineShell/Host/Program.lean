import LineShell.Host.Input

/-!
# Programs

What becomes of a process that asks to be replaced by a program.

* `Image`: a program that starts: what it reads, what it writes, how it ends.
* `LaunchError`: why no program starts, and `LaunchError.reason?`, the reason that is reported.
* `Program`, `Program.launch`: the programs there are, by path.
-/

namespace LineShell

/-- A program that starts.  It first reads, if it reads at all, and writes what it read to standard
output; then it writes its own output and its errors.  `ending` is what waiting for it gives: a wait
status, unless the wait fails. -/
structure Image where
  reads : Option Quota := none
  output : Bytes := []
  errors : Bytes := []
  ending : Except SystemError Int := .ok 0

inductive LaunchError
  /-- The path is empty. -/
  | emptyPath
  /-- The path holds a zero byte. -/
  | zeroByte
  /-- The system refuses, with an error number. -/
  | refused (error : SystemError)
  /-- The system refuses with no more than words. -/
  | unnumbered (text : Text)
  /-- The arguments are not acceptable. -/
  | rejected (text : Text)
  | interrupted
  | outOfMemory (text : Text)
  | broken (text : Text)
deriving DecidableEq, Repr

namespace LaunchError

def message : LaunchError → Text
  | .emptyPath => .ofString "execv() arg 2 first element cannot be empty"
  | .zeroByte => .ofString "execv: embedded null character in path"
  | .refused e => e.message
  | .unnumbered text | .rejected text | .outOfMemory text | .broken text => text
  | .interrupted => []

/-- The reason that a child reports: the reason of the system if there is one, else the whole
message.  A child that is interrupted, out of memory or broken reports nothing. -/
def reason? (e : LaunchError) : Option Text :=
  match e with
  | .refused error => some (if error.reason.isEmpty then e.message else error.reason)
  | .emptyPath | .zeroByte | .unnumbered _ | .rejected _ => some e.message
  | .interrupted | .outOfMemory _ | .broken _ => none

end LaunchError

/-- A path, and what asking for the program there gives. -/
structure Program where
  path : Bytes
  launch : Except LaunchError Image

/-- What asking for the program at some path gives.  A path is checked before it is looked up; of
two programs with one path the later counts. -/
def Program.launch? (programs : List Program) (path : Bytes) : Except LaunchError Image :=
  if path.isEmpty then .error .emptyPath
  else if path.contains 0 then .error .zeroByte
  else match programs.reverse.find? (·.path == path) with
    | some program => program.launch
    | none => .error (.refused .noSuchFile)

end LineShell
