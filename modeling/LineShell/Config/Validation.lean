import LineShell.Config.Basic
import LineShell.Config.Integer
import LineShell.Json.Value
import LineShell.Text.Utf8

/-!
# Checking settings

Settings come as JSON values from several places, and each setting takes some values and refuses
others.

* `Config.Issue`: why a value is refused, with its code and its words.
* `Config.Rejection`: a setting, the value that was given for it, and the issue.
* `Config.Layer`: a value for some of the settings.
* `Config.ofLayer`: the settings of a layer, or **all** its rejections.
* `Config.report`: rejections in words.
-/

namespace LineShell.Config

open Json (Value)

inductive Issue
  | notText
  | notInteger
  | unreadableInteger
  | oversizedInteger
  | fractional
  | notFinite
  | belowTwo
  | notSwitch
  | unreadableSwitch
  | surrogate
deriving DecidableEq, Repr

namespace Issue

def code : Issue → String
  | .notText => "string_type"
  | .notInteger => "int_type"
  | .unreadableInteger => "int_parsing"
  | .oversizedInteger => "int_parsing_size"
  | .fractional => "int_from_float"
  | .notFinite => "finite_number"
  | .belowTwo => "greater_than_equal"
  | .notSwitch => "bool_type"
  | .unreadableSwitch => "bool_parsing"
  | .surrogate => "string_unicode"

def words : Issue → String
  | .notText => "Input should be a valid string"
  | .notInteger => "Input should be a valid integer"
  | .unreadableInteger =>
    "Input should be a valid integer, unable to parse string as an integer"
  | .oversizedInteger => "Unable to parse input string as an integer, exceeded maximum size"
  | .fractional => "Input should be a valid integer, got a number with a fractional part"
  | .notFinite => "Input should be a finite number"
  | .belowTwo => "Input should be greater than or equal to 2"
  | .notSwitch => "Input should be a valid boolean"
  | .unreadableSwitch => "Input should be a valid boolean, unable to interpret input"
  | .surrogate => "Input should be a valid string, unable to parse raw data as a unicode string"

end Issue

/-! ## Single values -/

/-- The integers of 64 bits. -/
def isWord (n : Int) : Bool := -0x8000000000000000 ≤ n && n < 0x8000000000000000

/-- The integers whose size fits into 63 bits: those of 64 bits but the least. -/
def isSmall (n : Int) : Bool := n.natAbs < 0x8000000000000000

/-- A text setting takes strings only. -/
def text (v : Value) : Except Issue Text :=
  match v with
  | .string t => .ok t
  | _ => .error .notText

/-- The integer that a value stands for.  Of other numbers only small integers are taken. -/
def integer (v : Value) : Except Issue Int :=
  match v with
  | .int n => .ok n
  | .bool b => .ok (if b then 1 else 0)
  | .number x =>
    if !x.isFinite then .error .notFinite
    else match x.toInt? with
      | some n => if isSmall n then .ok n else .error .oversizedInteger
      | none => .error .fractional
  | .string t =>
    match Integer.ofText t with
    | .ok n => .ok n
    | .error .surrogate => .error .surrogate
    | .error .tooLong => .error .oversizedInteger
    | .error .malformed => .error .unreadableInteger
  | _ => .error .notInteger

/-- A limit is an integer from two on. -/
def limit (v : Value) : Except Issue { n : Int // 2 ≤ n } :=
  match integer v with
  | .ok n => if h : 2 ≤ n then .ok ⟨n, h⟩ else .error .belowTwo
  | .error issue => .error issue

def offWords : List String := ["0", "off", "f", "false", "n", "no"]

def onWords : List String := ["1", "on", "t", "true", "y", "yes"]

def switchOfInt (n : Int) : Except Issue Bool :=
  if !isWord n then .error .notSwitch
  else if n = 0 then .ok false
  else if n = 1 then .ok true
  else .error .unreadableSwitch

/-- A switch takes truth values, zero and one, and certain words. -/
def switch (v : Value) : Except Issue Bool :=
  match v with
  | .bool b => .ok b
  | .int n => switchOfInt n
  | .number x =>
    match x.toInt? with
    | some n => if isSmall n then switchOfInt n else .error .notSwitch
    | none => .error .notSwitch
  | .string t =>
    if t.any CodePoint.isSurrogate then .error .surrogate
    else
      let word := t.map CodePoint.lowered
      if (offWords.map Text.ofString).contains word then .ok false
      else if (onWords.map Text.ofString).contains word then .ok true
      else .error .unreadableSwitch
  | _ => .error .notSwitch

/-! ## All settings -/

structure Rejection where
  field : Field
  value : Value
  issue : Issue

abbrev Layer := Field → Option Value

def setting (layer : Layer) (field : Field) (check : Value → Except Issue α) (default : α) :
    Except Rejection α :=
  match layer field with
  | none => .ok default
  | some v => (check v).mapError fun issue => { field, value := v, issue }

def rejection? : Except Rejection α → List Rejection
  | .ok _ => []
  | .error r => [r]

/-- The settings of a layer; what it does not give has its default.  If any value is refused, all
that are refused are told, in the order of the settings. -/
def ofLayer (layer : Layer) : Except (List Rejection) Config :=
  let defaults : Config := {}
  let prompt := setting layer .prompt text defaults.prompt
  let banner := setting layer .banner text defaults.banner
  let lineLimit := setting layer .lineLimit limit ⟨defaults.lineLimit, defaults.two_le_lineLimit⟩
  let echo := setting layer .echo switch defaults.echo
  let reportStatus := setting layer .reportStatus switch defaults.reportStatus
  match prompt, banner, lineLimit, echo, reportStatus with
  | .ok prompt, .ok banner, .ok lineLimit, .ok echo, .ok reportStatus =>
    .ok { prompt, banner, lineLimit, echo, reportStatus, two_le_lineLimit := lineLimit.2 }
  | _, _, _, _, _ =>
    .error (rejection? prompt ++ rejection? banner ++ rejection? lineLimit ++ rejection? echo ++
      rejection? reportStatus)

/-! ## Reports -/

def size (t : Text) : Nat := (t.flatMap Utf8.sequence).length

/-- The longest front of a text that takes no more than `room` bytes. -/
def front (room : Nat) : Text → Text
  | [] => []
  | c :: t => if size [c] ≤ room then c :: front (room - size [c]) t else []

/-- A text of more than 50 bytes is cut in the middle: 25 bytes are kept in front and 24 at the end,
or a little less where that would split a code point. -/
def clip (t : Text) : Text :=
  if size t ≤ 50 then t
  else front 25 t ++ .ofString "..." ++ (front 24 t.reverse).reverse

def Rejection.report (r : Rejection) : Text :=
  let code : Text := .ofString r.issue.code
  r.field.key ++ .ofString "\n  " ++ .ofString r.issue.words ++ .ofString " [type=" ++ code ++
    .ofString ", input_value=" ++ clip r.value.display ++ .ofString ", input_type=" ++
    r.value.typeName ++
    .ofString "]\n    For further information visit https://errors.pydantic.dev/2.14/v/" ++ code

def report (rs : List Rejection) : Text :=
  .decimal rs.length ++
    .ofString (if rs.length = 1 then " validation error" else " validation errors") ++
    .ofString " for ShellConfig\n" ++ Text.join [.lineFeed] (rs.map Rejection.report)

end LineShell.Config
