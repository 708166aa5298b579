import LineShell.Config.Validation
import LineShell.Json.Document
import LineShell.Host.SystemError
import LineShell.Host.Event
import LineShell.Path

/-!
# Loading settings

Settings come from three **layers**: a file, the environment, and what is given for one run.  A
later layer goes before an earlier one, setting by setting.

* `Sources`: all that settings are loaded from.
* `Config.location`: where the file is.
* `Config.gather`: the members that the layers give together.
* `Config.load`: the settings.
* `Config.Error`, `LoadError`: a bad configuration, and what else can go wrong.
* `Config.records`: what is logged while settings are loaded.
-/

namespace LineShell

open Json (Value Members)

abbrev Environment := String → Option Bytes

abbrev Files := Text → Except SystemError Bytes

def Config.layerMembers (layer : Config.Layer) : Members :=
  Field.all.filterMap fun field => (layer field).map fun v => (field.key, v)

instance : Coe Config.Layer Members := ⟨Config.layerMembers⟩

/-- All that settings are loaded from.  The default file is settled before the environment is
looked at.  The system knows the home directories of its users by name; that of the user who runs
the shell stands under the empty name.  How much room there is for values that are nested in the
file depends on what is running already.  What is given for one run may name anything, as the
members of the file may. -/
structure Sources where
  environment : Environment
  files : Files
  defaultFile : Path
  homes : Text → Option Text := fun _ => none
  room : Nat := Json.usualRoom
  given : Members

namespace Config

/-! ## Errors -/

inductive Error
  | unreadable (file : Text) (error : SystemError)
  | malformed (file : Text) (cause : Json.Cause) (place : Json.Place)
  | notObject (file : Text)
  | rejected (rejections : List Rejection)

def Error.message : Error → Text
  | .unreadable file e =>
    .ofString "cannot read " ++ file ++ .ofString ": " ++
      SystemError.message { e with path := some file }
  | .malformed file cause place =>
    file ++ .ofString " is not valid JSON: " ++ (Json.Error.malformed cause place).message
  | .notObject file => file ++ .ofString " must contain a JSON object"
  | .rejected rejections => .ofString "invalid configuration: " ++ report rejections

end Config

inductive LoadError
  | bad (error : Config.Error)
  /-- A tilde stands for no known directory. -/
  | homeless
  /-- The file is not UTF-8. -/
  | undecodable (defect : Utf8.Defect)
  | tooManyDigits (count : Nat)
  | tooDeep

def LoadError.message : LoadError → Text
  | .bad e => e.message
  | .homeless => .ofString "Could not determine home directory."
  | .undecodable d => d.message
  | .tooManyDigits count => (Json.Error.tooManyDigits count).message
  | .tooDeep => Json.Error.tooDeep.message

namespace Config

/-! ## The file -/

def fileIn (home : Text) : Path :=
  (Path.ofText home).append [.ofString ".labsh", .ofString "config.json"]

def fileVariable : String := "LABSH_CONFIG"

/-- The home directory of a user.  For the user who runs the shell the environment goes before what
the system knows. -/
def homeOf (s : Sources) (name : Text) : Option Text :=
  match name, s.environment "HOME" with
  | [], some home => some (.ofBytes home)
  | name, _ => s.homes name

/-- Where the file is: where the environment says, blanks around that apart, or else at the default
place. -/
def location (s : Sources) : Except LoadError Path :=
  let place : Text := ((s.environment fileVariable).map Text.ofBytes).getD []
  match place.trim CodePoint.isBlank with
  | [] => .ok s.defaultFile
  | file =>
    match (Path.ofText file).expandHome? (homeOf s) with
    | some path => .ok path
    | none => .error .homeless

/-- All line ends as line feeds: a carriage return is one, alone or together with the line feed that
follows it. -/
def unixLines (t : Text) : Text :=
  let step (done : Text × Bool) (c : CodePoint) : Text × Bool :=
    if c = .carriageReturn then (.lineFeed :: done.1, true)
    else if c = .lineFeed && done.2 then (done.1, false)
    else (c :: done.1, false)
  (t.foldl step ([], false)).1.reverse

def membersOf (room : Nat) (file : Text) (bytes : Bytes) : Except LoadError Members :=
  match Text.ofUtf8 bytes with
  | .error d => .error (.undecodable d)
  | .ok t =>
    match Value.ofText (unixLines t) room with
    | .ok (.object members) => .ok members
    | .ok _ => .error (.bad (.notObject file))
    | .error (.malformed cause place) => .error (.bad (.malformed file cause place))
    | .error (.tooManyDigits count) => .error (.tooManyDigits count)
    | .error .tooDeep => .error .tooDeep

def isMissing (e : SystemError) : Bool := e.number = 2

/-- The members that the file gives.  A missing file gives none. -/
def fileMembers (s : Sources) (file : Text) : Except LoadError Members :=
  match s.files file with
  | .ok bytes => membersOf s.room file bytes
  | .error e => if isMissing e then .ok [] else .error (.bad (.unreadable file e))

/-! ## The layers -/

def variableOf : Field → String
  | .prompt => "LABSH_PROMPT"
  | .banner => "LABSH_BANNER"
  | .lineLimit => "LABSH_MAX_LINE"
  | .echo => "LABSH_ECHO"
  | .reportStatus => "LABSH_REPORT_STATUS"

def environmentLayer (environment : Environment) : Layer := fun field =>
  (environment (variableOf field)).map fun bytes => .string (.ofBytes bytes)

def withoutNulls (members : Members) : Members := members.filter fun m => !m.2.isNull

def layerOf (members : Members) : Layer := fun field => members.get? field.key

def gather (s : Sources) (file : Text) : Except LoadError Members := do
  let members ← fileMembers s file
  return (members.putAll (layerMembers (environmentLayer s.environment))).putAll
    (withoutNulls s.given)

def load (s : Sources) : Except LoadError Config := do
  let path ← location s
  let members ← gather s path.toText
  (ofLayer (layerOf members)).mapError fun rejections => .bad (.rejected rejections)

/-! ## The log -/

/-- What is logged while settings are loaded: that there is no file, and what the layers give. -/
def records (s : Sources) : List Record :=
  let record (text : Text) : Record := ⟨"labsh.config", .debug, text⟩
  match location s with
  | .error _ => []
  | .ok path =>
    let file := path.toText
    let missing := match s.files file with
      | .ok _ => []
      | .error e => if isMissing e then [record (.ofString "no config file at " ++ file)] else []
    let gathered := match gather s file with
      | .ok members =>
        [record (.ofString "config data from " ++ file ++ .ofString ": " ++
          (Value.object members).display)]
      | .error _ => []
    missing ++ gathered

end Config

end LineShell
