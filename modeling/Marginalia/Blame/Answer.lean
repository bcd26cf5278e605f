import Marginalia.Blame.Calendar
import Marginalia.Failure.Cause
import Marginalia.Text.Lines
import Marginalia.Text.Utf8

/-!
Blame: the version history is asked who last touched a line, and the answer holds the date.
-/

namespace Marginalia.Blame

/-- What comes of running the command. The output is the text that is handed on, in which only line
feeds end lines, and not yet the bytes that the command prints. -/
inductive Outcome where
  | answered (exitCode : Int) (output : Text)
  | timedOut
  | notRun (cause : SystemError)

/-- The command that asks about a line, counted from one. It runs in the directory of the file. -/
def command (path : Path) (line : Int) : List Text :=
  let line := Text.ofInt line
  ["git", "blame", "-L", line ++ ',' :: line, "--porcelain", "--", path.name]

def directory (path : Path) : Path := path.parent

/-- The name that stands for changes that are in no commit yet. -/
def uncommitted : Text := List.replicate 40 '0'

def timeKey : Text := "author-time "

/-- The seconds in a line that holds the time and nothing else. -/
def lineTime? (line : Text) : Option Nat :=
  let digits := line.drop timeKey.length
  if timeKey.isPrefixOf line && !digits.isEmpty && digits.all Text.isDigit then
    some (Text.digitsValue digits)
  else none

/-- The seconds in the first line that holds them. -/
def time? (output : Text) : Option Nat := output.lines.findSome? lineTime?

/-- The moment as text. Years past 9999 are not written. -/
def writtenTime (seconds : Nat) : Except Failure Text :=
  if Moment.lastCounted < seconds then .error .timeTooLarge
  else if Moment.lastWritten < seconds then
    .error (.yearOutOfRange (Moment.mk seconds).date.year)
  else .ok (Moment.mk seconds).toText

/-- The date in the output of the command, if it exited well and the line is committed. -/
def outputDate (exitCode : Int) (output : Text) : Except Failure (Option Text) :=
  if exitCode ≠ 0 || uncommitted.isPrefixOf output then .ok none
  else match time? output with
    | some seconds => some <$> writtenTime seconds
    | none => .ok none

/-- The date of the last change of a line. -/
def date (path : Path) (line : Int) : Outcome → Except Failure (Option Text)
  | .answered exitCode output => outputDate exitCode output
  | .timedOut => .error (.blameTimedOut path.toText line)
  | .notRun cause => .error (.blameNotRun path.toText line cause)

end Marginalia.Blame
