import Marginalia.Path
import Marginalia.Text.Blank
import Marginalia.Text.Case
import Marginalia.Text.Quoted

/-!
The languages whose comments are understood, their names and aliases, and the file suffixes that
announce them.
-/

namespace Marginalia

inductive Language where
  | java
  | pharo
  | python
  deriving DecidableEq, Repr, Inhabited

/-- Why no language could be settled on. -/
inductive LanguageError where
  | unknown (given : Text)
  | unknownSuffix (suffix : Text)
  | undetermined
  | noGrammar (language : Text)
  deriving DecidableEq, Repr

namespace Language

/-- All languages, in the order of their names. -/
def all : List Language := [.java, .pharo, .python]

def name : Language → Text
  | java => "java"
  | pharo => "pharo"
  | python => "python"

/-- The language of that name. Other texts may label a source too, but no rules apply to it then. -/
def named? (label : Text) : Option Language := all.find? (·.name == label)

def suffix : Language → Text
  | java => ".java"
  | pharo => ".st"
  | python => ".py"

def aliases : Language → List Text
  | java => []
  | pharo => ["smalltalk", "st"]
  | python => ["py", "python3"]

/-- There is a grammar for the language, so that its comments can be read off a syntax tree. -/
def hasGrammar : Language → Bool
  | java | python => true
  | pharo => false

/-- The language that a person means: blanks around the name and its case are ignored. -/
def ofName (given : Text) : Except LanguageError Language :=
  let name := given.trim.lower
  match all.find? fun l => l.name == name || l.aliases.contains name with
  | some l => .ok l
  | none => .error (.unknown given)

def ofSuffix? (suffix : Text) : Option Language := all.find? (·.suffix == suffix.lower)

/-- The language of a file, told by its suffix in any case. -/
def ofPath (path : Path) : Except LanguageError Language :=
  match ofSuffix? path.suffix with
  | some l => .ok l
  | none => .error (.unknownSuffix path.suffix.lower)

def isSupported (path : Path) : Bool := (ofSuffix? path.suffix).isSome

/-- The language of a source: as named, or else as the path tells. An empty name names nothing. -/
def resolve (given : Option Text) (path : Option Path) : Except LanguageError Language :=
  match given, path with
  | some (c :: rest), _ => ofName (c :: rest)
  | _, some path => ofPath path
  | _, none => .error .undetermined

/-- The suffix of a scratch file for source text under a label. -/
def scratchSuffix (label : Text) : Text :=
  match named? label with
  | some l => l.suffix
  | none => ".txt"

end Language

namespace LanguageError

/-- The names of all languages, in brackets. -/
def supported : Text :=
  '[' :: (", ".toList).intercalate (Language.all.map fun l => l.name.quoted) ++ [']']

def message : LanguageError → Text
  | unknown given => "Unsupported language '" ++ given ++ "'. Supported: " ++ supported
  | unknownSuffix suffix => "Unsupported file extension: " ++ suffix
  | undetermined => "Language must be provided when no file path is available."
  | noGrammar language => "No grammar for '" ++ language ++ "'"

end LanguageError

end Marginalia
