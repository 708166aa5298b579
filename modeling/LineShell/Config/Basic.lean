import LineShell.Text.Basic

/-!
# Settings of a session

* `Config`: the five settings, with their defaults.
* `Field`: their names.
-/

namespace LineShell

/-- The limit that is in force unless one is given is one of those that may be given. -/
theorem two_le_defaultLimit : (2 : Int) ≤ 1024 := by decide

/-- How a session looks and how long its lines may be.  The limit of a line counts its terminator,
so it is never less than two. -/
structure Config where
  prompt : Text := .ofString "~ # "
  banner : Text := .ofString "Running Shell..."
  lineLimit : Int := 1024
  echo : Bool := true
  reportStatus : Bool := false
  -- The default has its proof by name: `{}` is the same term in every module.
  two_le_lineLimit : 2 ≤ lineLimit := by first | exact two_le_defaultLimit | decide
deriving DecidableEq, Repr

inductive Field
  | prompt
  | banner
  | lineLimit
  | echo
  | reportStatus
deriving DecidableEq, Repr

namespace Field

/-- All settings, in the order in which they are checked. -/
def all : List Field := [.prompt, .banner, .lineLimit, .echo, .reportStatus]

def key : Field → Text
  | .prompt => .ofString "prompt"
  | .banner => .ofString "banner"
  | .lineLimit => .ofString "max_line_length"
  | .echo => .ofString "echo"
  | .reportStatus => .ofString "report_status"

end Field

end LineShell
