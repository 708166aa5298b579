import LineShell.Host.Program
import LineShell.WaitStatus
import LineShell.Config.Load

/-!
# Faults

What can stop an action of the shell before its end.

* `Fault`: one constructor for each cause.
* `Fault.message`: the fault in one line.
-/

namespace LineShell

inductive Fault
  /-- The user interrupts a read. -/
  | interrupted
  /-- The system refuses a read or a wait. -/
  | system (error : SystemError)
  /-- No child can be made. -/
  | childless (error : SystemError)
  /-- The child was waited for before. -/
  | reaped (pid : Int)
  | status (error : WaitStatus.Error)
  | launch (error : LaunchError)
  | unencodable (place : Utf8.Unencodable)
  /-- A line needs room for a byte and its terminator. -/
  | tooShort (limit : Int)
  /-- A command holds a line terminator. -/
  | terminator
  /-- There are no settings to run with. -/
  | load (error : LoadError)

def Fault.message : Fault → Text
  | .interrupted => []
  | .system e | .childless e => e.message
  | .reaped pid => .ofString "child " ++ .ofInt pid ++ .ofString " was already reaped"
  | .status e => e.message
  | .launch e => e.message
  | .unencodable place => place.message
  | .tooShort limit => .ofString "max_length must be at least 2, got " ++ .ofInt limit
  | .terminator => .ofString "command line must not contain a line terminator"
  | .load e => e.message

end LineShell
