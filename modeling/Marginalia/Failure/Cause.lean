import Marginalia.Failure.Category
import Marginalia.Language
import Marginalia.Level
import Marginalia.Number.General
import Marginalia.Validation

/-!
Failures: each is a cause with what is known about it. Its category and its message follow from the
cause.
-/

namespace Marginalia

/-- Why the file system refused. -/
inductive SystemCause where
  | missing
  | denied
  | taken
  | notDirectory
  | isDirectory
  | tooManyLinks
  deriving DecidableEq, Repr

def SystemCause.code : SystemCause → Nat
  | missing => 2
  | denied => 13
  | taken => 17
  | notDirectory => 20
  | isDirectory => 21
  | tooManyLinks => 40

def SystemCause.text : SystemCause → Text
  | missing => "No such file or directory"
  | denied => "Permission denied"
  | taken => "File exists"
  | notDirectory => "Not a directory"
  | isDirectory => "Is a directory"
  | tooManyLinks => "Too many levels of symbolic links"

/-- A refusal of the file system, with the path that it is about. -/
structure SystemError where
  cause : SystemCause
  path : Text
  deriving DecidableEq, Repr

def SystemError.message (e : SystemError) : Text :=
  "[Errno " ++ Text.ofNat e.cause.code ++ "] " ++ e.cause.text ++ ": " ++ e.path.quoted

inductive Failure where
  | language (cause : LanguageError)
  | level (cause : UnknownLevel)
  | invalid (issues : List Issue)
  | outOfRange
  | fileMissing (path : Text)
  | unreadable (path : Text) (cause : SystemError)
  | system (cause : SystemError)
  | parseTimeout (label : Text) (seconds : Float)
  | parserFailed (label reason : Text)
  | noTree (label : Text)
  | wrongType (reason : Text)
  | tooLarge (path : Text) (size : Nat) (limit : Int)
  | storeUnreadable (path : Text) (cause : SystemError)
  | storeInvalid (path : Text) (issues : List Issue)
  | storeUnwritable (path : Text) (cause : SystemError)
  | recordMissing (id : Int)
  | requestFailed (url reason : Text)
  | answerInvalid (issues : List Issue)
  | classifierFailed (reason : Text)
  | blameTimedOut (path : Text) (line : Int)
  | blameNotRun (path : Text) (line : Int) (cause : SystemError)
  | commitLookupFailed (reason : Text)
  | yearOutOfRange (year : Nat)
  | timeTooLarge
  | value (reason : Text)

namespace Failure

def category : Failure → Category
  | language _ => .unsupportedLanguage
  | level _ | yearOutOfRange _ | value _ => .invalidValue
  | invalid _ => .invalidInput
  | outOfRange => .positionOutOfRange
  | fileMissing _ => .missingFile
  | unreadable .. => .unreadableEntry
  | system e => if e.cause = .missing then .missingFile else .systemFailure
  | parseTimeout .. => .parseTimeout
  | parserFailed .. | noTree _ => .parseFailure
  | wrongType _ => .wrongType
  | tooLarge .. => .fileTooLarge
  | storeUnreadable .. | storeInvalid .. | storeUnwritable .. | recordMissing _ => .storeFailure
  | requestFailed .. | answerInvalid _ | classifierFailed _ => .classifierFailure
  | blameTimedOut .. | blameNotRun .. | commitLookupFailed _ => .commitLookupFailure
  | timeTooLarge => .numberTooLarge

/-- The failure is of a category. -/
def isA (f : Failure) (c : Category) : Bool := f.category.isA c

/-- The number of issues, in words. -/
def issueCount (issues : List Issue) : Text :=
  Text.ofNat issues.length ++ " validation error" ++
    (if issues.length = 1 then [] else ['s'] : Text)

def placeOf (path : Text) (line : Int) : Text := path ++ ":" ++ Text.ofInt line

def message : Failure → Text
  | language e => e.message
  | level e => e.message
  | invalid issues => issueCount issues
  | outOfRange => "list index out of range"
  | fileMissing path => "File not found: " ++ path
  | unreadable path e => "Cannot read " ++ path ++ ": " ++ e.message
  | system e => e.message
  | parseTimeout label seconds => label ++ " parse exceeded " ++ Number.general seconds ++ "s"
  | parserFailed label reason => label ++ " parser failed: " ++ reason
  | noTree label => label ++ " parser returned no tree"
  | wrongType reason => reason
  | tooLarge path size limit =>
    path ++ " is " ++ Text.ofNat size ++ " bytes (limit " ++ Text.ofInt limit ++ ")"
  | storeUnreadable path e => "Cannot read " ++ path ++ ": " ++ e.message
  | storeInvalid path issues => "Invalid comment store " ++ path ++ ": " ++ issueCount issues
  | storeUnwritable path e => "Cannot write " ++ path ++ ": " ++ e.message
  | recordMissing id => "Comment " ++ Text.ofInt id ++ " not found"
  | requestFailed url reason => "Classification request to " ++ url ++ " failed: " ++ reason
  | answerInvalid issues => "Unexpected classification response: " ++ issueCount issues
  | classifierFailed reason => reason
  | blameTimedOut path line => "git blame timed out for " ++ placeOf path line
  | blameNotRun path line e =>
    "git blame could not run for " ++ placeOf path line ++ ": " ++ e.message
  | commitLookupFailed reason => reason
  | yearOutOfRange year => "year " ++ Text.ofNat year ++ " is out of range"
  | timeTooLarge => "timestamp out of range for platform time_t"
  | value reason => reason

/-- The issues of a failed validation, if that is behind the failure. -/
def issues : Failure → List Issue
  | invalid issues | storeInvalid _ issues | answerInvalid issues => issues
  | _ => []

end Failure

/-- A validated value; what could not be validated is a failure. -/
def Validated.orFail {α : Type} (failure : List Issue → Failure) : Validated α → Except Failure α
  | valid a => .ok a
  | invalid issues => .error (failure issues)

end Marginalia
