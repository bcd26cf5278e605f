import Marginalia.Batch.Basic
import Marginalia.Json.Reader
import Marginalia.Json.Writer
import Marginalia.Record.Stored
import Marginalia.Text.Utf8

/-!
The stored form of a batch: a JSON object with one list of records for each path. The same form goes
over the wire, there in one line.
-/

namespace Marginalia

/-- The value that a JSON text in UTF-8 stands for, once it is validated. -/
def Bytes.readJson {α : Type} (read : Json → Validated α) (bytes : Bytes) : Validated α :=
  match bytes.decode?.bind Json.parse? with
  | some v => read v
  | none => .fault .notJson

namespace Batch

def toJson (b : Batch) : Json := .object (b.files.map fun (path, rs) => (path, Record.listToJson rs))

def readFiles : List (Text × Json) → Validated (List FileRecords)
  | [] => .valid []
  | (path, v) :: fields =>
    (fun rs fs => (path, rs) :: fs) <$> (Record.listOfJson v).within (.key path) <*> readFiles fields

def ofJson : Json → Validated Batch
  | .object fields => ofList <$> readFiles fields
  | _ => .fault .notBatch

/-- The text of the store. -/
def dump (b : Batch) : Text := b.toJson.indented

def ofBytes (bytes : Bytes) : Validated Batch := bytes.readJson ofJson

end Batch

/-- The text of some records alone. -/
def Record.dump (rs : List Record) : Text := (Record.listToJson rs).indented

end Marginalia
