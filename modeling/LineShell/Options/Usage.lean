import LineShell.Options.Basic

/-!
# Usage, help and version

* `Options.usage`, `Options.help`, `Options.version`: what is shown when it is asked for.
* `Options.complaint`: what is shown of a misuse.
-/

namespace LineShell.Options

def usage : Text := .ofString "usage: labsh [-h] [-V] [-d] [--prompt PROMPT] [--banner BANNER]
             [--max-line-length MAX_LINE_LENGTH] [--no-echo] [--report-status]
"

def help : Text := usage ++ .ofString "
Minimal shell: runs each input line as an executable path

options:
  -h, --help            show this help message and exit
  -V, --version         show program's version number and exit
  -d, --debug           Enable debug logging
  --prompt PROMPT       Prompt written before each read
  --banner BANNER       Line written once at startup (empty to disable)
  --max-line-length MAX_LINE_LENGTH
                        Command buffer size in bytes, terminator included
  --no-echo             Do not echo each command before running it
  --report-status       Write each child's exit status to stderr
"

def version : Text := .ofString "labsh 0.1.0\n"

/-- The usage, and what is wrong with the arguments. -/
def complaint (m : Misuse) : Text :=
  usage ++ .ofString "labsh: error: " ++ m.message ++ [.lineFeed]

end LineShell.Options
