import LineShell.Text.Basic

/-!
# Flags of the command line

* `Flag`: what can be asked for on the command line, and whether it takes a value.
* `Flag.table`: all spellings, in order.
* `Flag.name`: all spellings of one flag.
-/

namespace LineShell

inductive Flag
  | help
  | version
  | debug
  | prompt
  | banner
  | lineLimit
  | noEcho
  | reportStatus
deriving DecidableEq, Repr

namespace Flag

def spellings : List (String × Flag) := [
  ("-h", .help), ("--help", .help), ("-V", .version), ("--version", .version), ("-d", .debug),
  ("--debug", .debug), ("--prompt", .prompt), ("--banner", .banner),
  ("--max-line-length", .lineLimit), ("--no-echo", .noEcho), ("--report-status", .reportStatus)]

def table : List (Text × Flag) := spellings.map fun s => (.ofString s.1, s.2)

def ofSpelling? (t : Text) : Option Flag := (table.find? (·.1 == t)).map (·.2)

/-- All spellings of a flag, with slashes between them. -/
def name (f : Flag) : Text :=
  Text.join [.slash] ((table.filter (·.2 = f)).map (·.1))

def takesValue : Flag → Bool
  | .prompt | .banner | .lineLimit => true
  | _ => false

end Flag

end LineShell
