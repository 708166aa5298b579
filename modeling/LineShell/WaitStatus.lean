import LineShell.Text.Basic

/-!
# Wait statuses

A **wait status** is a C integer that says how a process ended.  Its low seven bits are zero if the
process exited, and then the next whole byte is its exit code; otherwise they are the signal that
killed it.  All seven bits set means that it has not ended at all.

* `WaitStatus.exitCode`: the exit code, the signal counting as a negative code.
* `WaitStatus.Error`, `WaitStatus.Error.message`.
-/

namespace LineShell.WaitStatus

inductive Error
  /-- It is no C integer. -/
  | tooLarge
  /-- The process was stopped. -/
  | stopped (signal : Nat)
  /-- No process has this status. -/
  | undefined (status : Int)
deriving DecidableEq, Repr

def Error.message : Error → Text
  | .tooLarge => .ofString "Python int too large to convert to C int"
  | .stopped signal => .ofString "process stopped by delivery of signal " ++ .decimal signal
  | .undefined status => .ofString "invalid wait status: " ++ .ofInt status

def word (status : Int) : Nat := (status % 0x100000000).toNat

/-- The exit code of a status; killed by signal `n` counts as `-n`. -/
def exitCode (status : Int) : Except Error Int :=
  if status < -0x80000000 || 0x80000000 ≤ status then .error .tooLarge
  else
    let low := word status % 0x80
    let high := word status / 0x100 % 0x100
    if low = 0 then .ok high
    else if low ≠ 0x7F then .ok (-low)
    else if word status % 0x100 = 0x7F then .error (.stopped high)
    else .error (.undefined status)

end LineShell.WaitStatus
