import Marginalia.Text.Basic

/-!
The log: what happened along the way, with a severity for each entry.
-/

namespace Marginalia

inductive Severity where
  | debug
  | info
  | warning
  | error
  deriving DecidableEq, Repr

def Severity.name : Severity → Text
  | debug => "DEBUG"
  | info => "INFO"
  | warning => "WARNING"
  | error => "ERROR"

structure LogEntry where
  severity : Severity
  message : Text
  deriving DecidableEq, Repr

abbrev Log := List LogEntry

namespace LogEntry

def debug (message : Text) : LogEntry := ⟨.debug, message⟩

def info (message : Text) : LogEntry := ⟨.info, message⟩

def warning (message : Text) : LogEntry := ⟨.warning, message⟩

def error (message : Text) : LogEntry := ⟨.error, message⟩

end LogEntry

end Marginalia
