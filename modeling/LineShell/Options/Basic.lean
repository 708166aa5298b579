import LineShell.Options.Word
import LineShell.Text.Blank
import LineShell.Text.Quoted
import LineShell.Config.Validation

/-!
# Options of a run

* `Options`: what was asked for; `Options.layer` is what it says about the settings.
* `Options.Misuse`: what is wrong with arguments, and `Options.Misuse.message`.
* `Options.Stop`: why a run does not begin: help or the version was asked for, or there is a misuse.
* `Options.ofArguments`: the options that arguments ask for.

Flags act from left to right, and the later of two values counts.  What nobody takes is only
complained of at the end.

Releases of the parser differ in odd cases.  The rules here are those of the 3.11 releases before
3.11.10: text attached to a flag that takes no value is ignored and complained of at once (`-dx`,
`-V1`), and a value that is the separator is taken away and leaves an empty array (`--prompt=--`).
-/

namespace LineShell

/-- What was asked for on the command line.  A value that was taken for the separator leaves an
empty array behind. -/
structure Options where
  debug : Bool := false
  prompt : Option Json.Value := none
  banner : Option Json.Value := none
  lineLimit : Option Json.Value := none
  noEcho : Bool := false
  reportStatus : Bool := false

namespace Options

def layer (o : Options) : Config.Layer
  | .prompt => o.prompt
  | .banner => o.banner
  | .lineLimit => o.lineLimit
  | .echo => if o.noEcho then some (.bool false) else none
  | .reportStatus => if o.reportStatus then some (.bool true) else none

inductive Misuse
  | ambiguous (a : Ambiguity)
  | valueExpected (flag : Flag)
  | valueIgnored (flag : Flag) (value : Text)
  | notInteger (value : Text)
  | unrecognized (arguments : List Text)
deriving DecidableEq, Repr

def Misuse.message : Misuse → Text
  | .ambiguous a =>
    .ofString "ambiguous option: " ++ a.argument ++ .ofString " could match " ++
      Text.join (.ofString ", ") a.spellings
  | .valueExpected f => .ofString "argument " ++ f.name ++ .ofString ": expected one argument"
  | .valueIgnored f value =>
    .ofString "argument " ++ f.name ++ .ofString ": ignored explicit argument " ++ value.quoted
  | .notInteger value =>
    .ofString "argument " ++ Flag.lineLimit.name ++ .ofString ": invalid int value: " ++
      value.quoted
  | .unrecognized arguments =>
    .ofString "unrecognized arguments: " ++ Text.join [.space] arguments

inductive Stop
  | help
  | version
  | misuse (m : Misuse)
deriving DecidableEq, Repr

/-! ## Values -/

/-- The integer that a value stands for: digits of any script, with a sign before them, single
underscores between them, and white space around it all. -/
def integer? (t : Text) : Option Int :=
  let (negative, size) := Text.unsign (t.trim CodePoint.isWhiteSpace)
  let groups := Text.pieces .underscore size
  let digits := groups.flatten
  if groups.any (·.isEmpty) || !digits.all (·.decimal?.isSome) then none
  else if Text.digitLimit < digits.length then none
  else
    some <| Text.signed negative <|
      (digits.filterMap CodePoint.decimal?).foldl (fun n d => 10 * n + d) 0

def give (o : Options) (f : Flag) (value : Text) : Except Stop Options :=
  let isSeparator := value = Word.separatorText
  let text : Json.Value := if isSeparator then .array [] else .string value
  match f with
  | .prompt => .ok { o with prompt := some text }
  | .banner => .ok { o with banner := some text }
  | .lineLimit =>
    if isSeparator then .ok { o with lineLimit := some text }
    else match integer? value with
      | some n => .ok { o with lineLimit := some (.int n) }
      | none => .error (.misuse (.notInteger value))
  | _ => .ok o

/-- Does what a flag without a value asks for. -/
def act (o : Options) (f : Flag) : Except Stop Options :=
  match f with
  | .help => .error .help
  | .version => .error .version
  | .debug => .ok { o with debug := true }
  | .noEcho => .ok { o with noEcho := true }
  | .reportStatus => .ok { o with reportStatus := true }
  | _ => .ok o

/-! ## Arguments -/

/-- The flags of one letter that are attached to a flag `f` of one letter, `f` itself among them. -/
def cluster (f : Flag) : Text → Except Stop (List Flag)
  | [] => .ok [f]
  | c :: rest =>
    match Flag.ofSpelling? [.hyphen, c] with
    | some g => (f :: ·) <$> cluster g rest
    | none => .error (.misuse (.valueIgnored f (c :: rest)))

/-- Does what a flag asks for to which something may be attached.  All of a cluster is looked at
before any of it acts. -/
def actWith (o : Options) (f : Flag) (short : Bool) : Option Text → Except Stop Options
  | none => o.act f
  | some value =>
    if short && !value.isEmpty then do
      (← cluster f value).foldlM act o
    else .error (.misuse (.valueIgnored f value))

/-- Goes through the words from left to right; `rest` is what nobody took so far. -/
def follow (o : Options) (rest : List Text) : List (Text × Word) → Except Stop (Options × List Text)
  | [] => .ok (o, rest)
  | (t, .plain) :: words | (t, .separator) :: words | (t, .unknown) :: words =>
    follow o (rest ++ [t]) words
  | (_, .flag f short attached) :: words =>
    if f.takesValue then
      match attached, words with
      | some value, words => do follow (← o.give f value) rest words
      | none, (value, .plain) :: words => do follow (← o.give f value) rest words
      | none, _ => .error (.misuse (.valueExpected f))
    else do follow (← o.actWith f short attached) rest words

/-- The options that arguments ask for, by the rules of the 3.11 releases before 3.11.10. -/
def ofArguments (arguments : List Text) : Except Stop Options := do
  let words ← (Word.ofArguments arguments).mapError fun a => .misuse (.ambiguous a)
  match ← follow {} [] words with
  | (o, []) => return o
  | (_, rest) => throw (.misuse (.unrecognized rest))

end Options

end LineShell
