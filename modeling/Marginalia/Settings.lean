import Marginalia.Text.Number
import Marginalia.Validation

/-!
Settings: limits, time-outs and addresses. They are read from named values, which may all be texts,
as variables of the environment are.
-/

namespace Marginalia

structure Settings where
  maxFileSize : Int
  parseTimeout : Float
  workers : Int
  enrichCommitDates : Bool
  blameConcurrency : Int
  blameTimeout : Float
  classifierUrl : Text
  classifierTimeout : Float
  storePath : Text
  deriving Inhabited

namespace Json

/-- A number; an integer and a text that spells a number count as one. -/
def asNumber : Json → Validated Float
  | .float x => .valid x
  | .int n => .valid (Number.ofDecimal (n < 0) n.natAbs 0)
  | .bool b => .valid (if b then 1.0 else 0.0)
  | .string t =>
    match t.storedNumber? with
    | some x => .valid x
    | none => .fault .unreadableNumber
  | _ => .fault .notNumber

/-- The words for yes and for no, in small letters. -/
def yesWords : List Text := ["true", "t", "yes", "y", "on", "1"]

def noWords : List Text := ["false", "f", "no", "n", "off", "0"]

/-- Zero stands for no and one for yes. -/
def booleanOf (n : Int) : Validated Bool :=
  if n = 0 then .valid false else if n = 1 then .valid true else .fault .unreadableBoolean

def asBoolean : Json → Validated Bool
  | .bool b => .valid b
  | .int n => booleanOf n
  | .float x =>
    match Number.wholeValue? x with
    | some n => booleanOf n
    | none => .fault .notBoolean
  | .string t =>
    if yesWords.contains t.lower then .valid true
    else if noWords.contains t.lower then .valid false
    else .fault .unreadableBoolean
  | _ => .fault .notBoolean

end Json

namespace Settings

def positive (x : Float) : Validated Float := if x ≤ 0 then .fault .notAbove else .valid x

def positiveInteger (n : Int) : Validated Int := if n ≤ 0 then .fault .notAbove else .valid n

def atLeastOne (n : Int) : Validated Int := if n < 1 then .fault .below else .valid n

/-- What is not set keeps its usual value. -/
def ofFields (fields : List (Text × Json)) : Validated Settings :=
  let field {α : Type} (name : Text) (usual : α) (read : Json → Validated α) :=
    Json.fieldAs fields [name] (.valid usual) read
  Settings.mk
    <$> field "max_file_size" 1048576 (fun v => v.asInteger.andThen positiveInteger)
    <*> field "parse_timeout" 5.0 (fun v => v.asNumber.andThen positive)
    <*> field "workers" 8 (fun v => v.asInteger.andThen atLeastOne)
    <*> field "enrich_commit_dates" true Json.asBoolean
    <*> field "git_concurrency" 8 (fun v => v.asInteger.andThen atLeastOne)
    <*> field "git_timeout" 5.0 (fun v => v.asNumber.andThen positive)
    <*> field "classifier_url" "http://127.0.0.1:5000" Json.asString
    <*> field "classifier_timeout" 60.0 (fun v => v.asNumber.andThen positive)
    <*> field "store_relpath" ".vscode/commentsInfo.json" Json.asString

/-- The settings in the variables of the environment, whose names may be in any case. -/
def ofVariables (named : List (Text × Text)) : Validated Settings :=
  ofFields (named.map fun (name, value) => (name.lower, .string value))

end Settings

end Marginalia
