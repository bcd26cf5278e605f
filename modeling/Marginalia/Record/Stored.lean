import Marginalia.Record.Basic
import Marginalia.Validation
import Marginalia.Text.Blank

/-!
The stored form of a record: a JSON object with its fields in a fixed order. Reading it is lenient
about spelling and strict about meaning: a record that is read has trimmed content, no empty tag,
and rows in order.
-/

namespace Marginalia.Record

def pairJson (p : Int × Int) : Json := .array [.int p.1, .int p.2]

def toJson (r : Record) : Json := .object [
  ("id", .int r.id),
  ("language", .string r.language),
  ("content", .string r.content),
  ("className", .string r.className),
  ("relativePath", .string r.relativePath),
  ("level", .string r.level.name),
  ("type", .array (r.tags.map .string)),
  ("lineNumber", pairJson r.rows),
  ("index", pairJson r.columns),
  ("lastCommitDate", .string r.commitDate)]

/-- Content without white space around it. -/
def readContent (v : Json) : Validated Text :=
  v.asString.andThen fun t =>
    if t.trim.isEmpty then .fault (.rejected "comment content must not be empty")
    else .valid t.trim

def readLevel : Json → Validated Level
  | .string t =>
    match Level.named? t with
    | some l => .valid l
    | none => .fault .notLevel
  | _ => .fault .notLevel

/-- A list of strings, once the items that stand for nothing are dropped. -/
def readTags (v : Json) : Validated (List Text) :=
  v.asArray.andThen fun vs => .items Json.asString (vs.filter fun v => !v.isFalsy)

/-- The rows are counted from zero, and the last is not before the first. -/
def checkRows (r : Record) : Validated Record :=
  let (first, last) := r.rows
  if first < 0 || last < first then
    .fault (.rejected
      ("invalid line range [" ++ Text.ofInt first ++ ", " ++ Text.ofInt last ++ "]"))
  else .valid r

def readFields (fields : List (Text × Json)) : Validated Record :=
  let field {α : Type} := @Json.fieldAs α fields
  Record.mk <$> field ["id"] (.valid 0) Json.asInteger
    <*> field ["language"] (.fault .missing) Json.asString
    <*> field ["content"] (.fault .missing) readContent
    <*> field ["className", "class_name"] (.valid []) Json.asString
    <*> field ["relativePath", "relative_path"] (.valid []) Json.asString
    <*> field ["level"] (.valid .inline) readLevel
    <*> field ["type"] (.valid []) readTags
    <*> field ["lineNumber", "line_number"] (.fault .missing) Json.asPair
    <*> field ["index"] (.valid (0, 0)) Json.asPair
    <*> field ["lastCommitDate", "last_commit_date"] (.valid []) Json.asString

def ofJson : Json → Validated Record
  | .object fields => (readFields fields).andThen checkRows
  | _ => .fault .notRecord

def listToJson (rs : List Record) : Json := .array (rs.map toJson)

def listOfJson (v : Json) : Validated (List Record) :=
  v.asArray.andThen (.items ofJson)

end Marginalia.Record
