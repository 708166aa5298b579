import LineShell.Text.Quoted

/-!
# Errors of the system

A call that the system refuses gives an **error number**.

* `SystemError`: the number, its reason in words, and the path that was refused, if there is one.
* `SystemError.reasons`: the usual words for a number.
* `SystemError.message`: the error in one line.
-/

namespace LineShell

structure SystemError where
  number : Int
  reason : Text
  path : Option Text := none
deriving DecidableEq, Repr

namespace SystemError

def reasons : List String := [
  "Operation not permitted", "No such file or directory", "No such process",
  "Interrupted system call", "Input/output error", "No such device or address",
  "Argument list too long", "Exec format error", "Bad file descriptor", "No child processes",
  "Resource temporarily unavailable", "Cannot allocate memory", "Permission denied",
  "Bad address", "Block device required", "Device or resource busy", "File exists",
  "Invalid cross-device link", "No such device", "Not a directory", "Is a directory",
  "Invalid argument", "Too many open files in system", "Too many open files",
  "Inappropriate ioctl for device", "Text file busy", "File too large",
  "No space left on device", "Illegal seek", "Read-only file system", "Too many links",
  "Broken pipe", "Numerical argument out of domain", "Numerical result out of range",
  "Resource deadlock avoided", "File name too long", "No locks available",
  "Function not implemented", "Directory not empty", "Too many levels of symbolic links"]

def reasonOf (number : Int) : Text :=
  match if 0 < number then reasons[number.toNat - 1]? else none with
  | some reason => .ofString reason
  | none => .ofString "Unknown error " ++ .ofInt number

def ofNumber (number : Int) : SystemError := ⟨number, reasonOf number, none⟩

def noSuchFile : SystemError := ofNumber 2

/-- The number in brackets, the reason, and the path in quotes. -/
def message (e : SystemError) : Text :=
  .ofString "[Errno " ++ .ofInt e.number ++ .ofString "] " ++ e.reason ++
    match e.path with
    | some path => .ofString ": " ++ path.quoted
    | none => []

end SystemError

end LineShell
