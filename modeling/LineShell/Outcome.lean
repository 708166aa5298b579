import LineShell.Text.Basic

/-!
# Outcomes

What became of one command.

* `Outcome`: the command, the child that ran it, and its exit code.
* `Outcome.statusLine?`: the report of an outcome.
-/

namespace LineShell

/-- What became of a command.  Without a child there is no `pid`; a negative `code` is the signal
that killed the child. -/
structure Outcome where
  command : Text
  pid : Option Int := none
  code : Option Int := none
deriving DecidableEq, Repr

namespace Outcome

def started (o : Outcome) : Bool := o.pid.isSome

def succeeded (o : Outcome) : Bool := o.code == some 0

def killed (o : Outcome) : Bool := o.code.any (· < 0)

def statusLine? (o : Outcome) : Option Text :=
  if o.started then
    some <| match o.code with
      | some code =>
        if code < 0 then .ofString "[killed by signal " ++ .ofInt (-code) ++ .ofString "]\n"
        else .ofString "[exit " ++ .ofInt code ++ .ofString "]\n"
      | none => .ofString "[exit None]\n"
  else none

end Outcome

end LineShell
