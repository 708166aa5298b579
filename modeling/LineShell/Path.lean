import LineShell.Text.Basic

/-!
# Paths in normal form

A **path** is kept without what does not matter: repeated slashes, components that are a single dot,
and a slash at its end.  Two slashes in front are kept, since they may name another root.

* `Path`, `Path.ofText`, `Path.toText`.
* `Path.expandHome?`: a path that starts at the home directory of a user.
-/

namespace LineShell

inductive Path.Root
  | none
  | one
  | two
deriving DecidableEq, Repr

structure Path where
  root : Path.Root
  parts : List Text
deriving DecidableEq, Repr

namespace Path

def Root.toText : Root → Text
  | .none => []
  | .one => [.slash]
  | .two => [.slash, .slash]

/-- Three slashes in front or more are as good as one. -/
def rootOf (t : Text) : Root :=
  match (t.takeWhile (· = .slash)).length with
  | 0 => .none
  | 2 => .two
  | _ => .one

def ofText (t : Text) : Path where
  root := rootOf t
  parts := (t.pieces .slash).filter fun part => part ≠ [] && part ≠ [.dot]

/-- The name of a path; where nothing is left it is a single dot. -/
def toText (p : Path) : Text :=
  match p.root.toText ++ Text.join [.slash] p.parts with
  | [] => [.dot]
  | t => t

def append (p : Path) (parts : List Text) : Path := { p with parts := p.parts ++ parts }

/-- The directory that a tilde stands for.  Slashes at the end of the home directory do not matter;
if nothing else is there, it is the root. -/
def homeDirectory (home : Text) : Text :=
  match (home.reverse.dropWhile (· = .slash)).reverse with
  | [] => [.slash]
  | t => t

/-- A relative path whose first component starts with a tilde is taken from the home directory of
the user whose name follows the tilde.  It is refused if that directory is not known. -/
def expandHome? (homes : Text → Option Text) (p : Path) : Option Path :=
  match p.root, p.parts with
  | .none, (.cons c name) :: parts =>
    if c ≠ .tilde then some p
    else match (homes name).map homeDirectory with
      | some directory =>
        if directory.head? = some .tilde then none else some ((ofText directory).append parts)
      | none => none
  | _, _ => some p

end Path

end LineShell
