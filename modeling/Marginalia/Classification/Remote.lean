import Marginalia.Batch.Stored
import Marginalia.Classification.Classifier

/-!
The classifier behind a web address. Records are posted to it as JSON in one line and come back in
the same form.
-/

namespace Marginalia

/-- A request, always a POST of JSON. -/
structure Request where
  url : Text
  body : Text
  deriving DecidableEq, Repr

/-- What comes of a request. -/
inductive Response where
  | unreachable
  | answered (status : Int) (body : Bytes)

namespace Request

/-- The address without slashes at its end. -/
def baseOf (address : Text) : Text := Sequence.dropEndWhile (· == '/') address

def route : Question → Text
  | .file _ => "/executeClassifyOfSingleFile"
  | .all _ => "/executeClassifyOfAllFiles"

def payload : Question → Text
  | .file records => (Record.listToJson records).compact
  | .all batch => batch.toJson.compact

/-- The ports that need not be written. -/
def usualPort (scheme : Text) : Text :=
  if scheme == "http" then ":80" else if scheme == "https" then ":443" else []

/-- An address as it is sent: scheme and host in small letters, without the port that goes without
saying. -/
def canonical (address : Text) : Text :=
  match Sequence.indexOf? "://" address with
  | none => address
  | some n =>
    let scheme := (address.take n).map Char.toLower
    let rest := address.drop (n + 3)
    let host := (rest.takeWhile (· != '/')).map Char.toLower
    let port := usualPort scheme
    let host :=
      if !port.isEmpty && port.isSuffixOf host then host.take (host.length - port.length) else host
    scheme ++ "://" ++ host ++ rest.dropWhile (· != '/')

def ofQuestion (address : Text) (q : Question) : Request :=
  ⟨canonical (baseOf address ++ route q), payload q⟩

end Request

/-- The answer to a question, read from the response to the request. -/
def Response.read {α : Type} (url : Text) (read : Json → Validated α) :
    Response → Except Failure α
  | unreachable => .error (.requestFailed url "All connection attempts failed")
  | answered status body =>
    if 200 ≤ status && status < 300 then (body.readJson read).orFail .answerInvalid
    else .error (.requestFailed url ("status " ++ Text.ofInt status))

namespace Classifier

/-- Some questions are answered without a request: nothing is asked for. -/
def sends : Question → Bool
  | .file records => !records.isEmpty
  | .all _ => true

def remoteNotes (q : Question) : Log :=
  match q with
  | .file records =>
    if records.isEmpty then []
    else [.info ("Sending " ++ Text.ofNat records.length ++ " comment(s) for classification")]
  | .all batch => [.info ("Sending " ++ Text.ofNat batch.size ++ " file(s) for classification")]

/-- The classifier at an address, where `send` is what the network does. -/
def remote (address : Text) (send : Request → Response) : Classifier where
  notes := remoteNotes
  file records :=
    if records.isEmpty then .ok []
    else
      let q := Question.file records
      (send (Request.ofQuestion address q)).read (Request.baseOf address ++ Request.route q)
        Record.listOfJson
  all batch :=
    let q := Question.all batch
    (send (Request.ofQuestion address q)).read (Request.baseOf address ++ Request.route q)
      Batch.ofJson

end Classifier

end Marginalia
