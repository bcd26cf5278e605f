import Marginalia.Level
import Marginalia.Path
import Marginalia.Text.Integer

/-!
Arguments of the command line: which command they name and with which options.
-/

namespace Marginalia

/-- A command with its options. Where no root is named it is the current directory. -/
inductive Command where
  | extract (path : Option Path) (code language : Option Text) (asJson : Bool)
  | classify (root : Path) (offline : Bool)
  | update (path : Option Path) (root : Path) (offline : Bool)
  | list (root : Path) (file : Option Path) (level : Option Level)
  | edit (id : Int) (root : Path) (level : Option Level) (tags : Option (List Text))
  | watch (root : Path) (offline : Bool)
  deriving DecidableEq, Repr

/-- What the arguments ask for. -/
inductive Invocation where
  | misuse
  | help
  | commandHelp (verbose : Bool)
  | command (verbose : Bool) (command : Command)
  deriving DecidableEq, Repr

/-- The options that a command knows: for each whether it takes a value. Every command knows the
options for help. -/
abbrev OptionTable := List (Text × Bool)

/-- Options with their values, which are empty for those without, and the other arguments. -/
structure Given where
  options : List (Text × Text)
  others : List Text
  deriving DecidableEq, Repr

namespace Given

def withOption (name value : Text) (g : Given) : Given :=
  { g with options := (name, value) :: g.options }

def withOther (argument : Text) (g : Given) : Given := { g with others := argument :: g.others }

def has (g : Given) (name : Text) : Bool := g.options.any (·.1 == name)

/-- All values of an option, in order. -/
def values (g : Given) (name : Text) : List Text :=
  (g.options.filter (·.1 == name)).map Prod.snd

/-- The last value of an option. -/
def value? (g : Given) (name : Text) : Option Text := (g.values name).getLast?

end Given

namespace OptionTable

def takesValue? (table : OptionTable) (name : Text) : Option Bool :=
  (table.find? (·.1 == name)).map Prod.snd

/-- The argument is an option and not a value: it begins with a dash and is more than that. -/
def isOption (argument : Text) : Bool := argument.head? == some '-' && 1 < argument.length

def isLong (argument : Text) : Bool := ("--" : Text).isPrefixOf argument

/-- The long options that the letters of a short one stand for. -/
def shortNames? (letters : List (Char × Text)) (argument : Text) : Option (List Text) :=
  (argument.drop 1).mapM fun c => (letters.find? (·.1 == c)).map Prod.snd

/-- Cuts the arguments into options and others. With `mixed`, options may follow other arguments;
else the first other argument ends the options. `none` stands for a misuse. -/
def read (table : OptionTable) (letters : List (Char × Text)) (mixed : Bool) :
    List Text → Option Given
  | [] => some ⟨[], []⟩
  | a :: rest =>
    if a == "--" then some ⟨[], rest⟩
    else if !isOption a then
      if mixed then (read table letters mixed rest).map (Given.withOther a) else some ⟨[], a :: rest⟩
    else if isLong a then
      let name := a.takeWhile (· != '=')
      match table.takesValue? name, (a.drop name.length).head? with
      | none, _ => none
      | some false, some _ => none
      | some false, none => (read table letters mixed rest).map (Given.withOption name [])
      | some true, some _ =>
        (read table letters mixed rest).map (Given.withOption name (a.drop (name.length + 1)))
      | some true, none =>
        match rest with
        | [] => none
        | v :: rest => (read table letters mixed rest).map (Given.withOption name v)
    else match shortNames? letters a with
      | none => none
      | some names =>
        (read table letters mixed rest).map fun g =>
          names.foldr (fun name g => g.withOption name []) g

end OptionTable

namespace Command

/-- The names of the commands, with the options of each and the number of its other arguments. -/
def shapes : List (Text × OptionTable × Nat) := [
  ("extract", [("--code", true), ("--language", true), ("--json", false)], 1),
  ("classify", [("--offline", false)], 1),
  ("update", [("--root", true), ("--offline", false)], 1),
  ("show", [("--root", true), ("--file", true), ("--level", true)], 0),
  ("edit", [("--root", true), ("--level", true), ("--type", true)], 1),
  ("watch", [("--offline", false)], 1)]

def helpOption : Text × Bool := ("--help", false)

def pathOr (usual : Path) (t : Option Text) : Path := (t.map Path.ofText).getD usual

/-- The level that is named, if one is; the name has to be exact. -/
def levelOf? (t : Option Text) : Option (Option Level) :=
  match t with
  | none => some none
  | some name => (Level.named? name).map some

/-- The command of that name with what is given, if all that is needed is there. -/
def ofGiven? (name : Text) (g : Given) : Option Command :=
  let other := g.others.head?
  let root := pathOr .here (g.value? "--root")
  let offline := g.has "--offline"
  if name == "extract" then
    some (.extract (other.map Path.ofText) (g.value? "--code") (g.value? "--language")
      (g.has "--json"))
  else if name == "classify" then some (.classify (pathOr .here other) offline)
  else if name == "update" then some (.update (other.map Path.ofText) root offline)
  else if name == "watch" then some (.watch (pathOr .here other) offline)
  else do
    let level ← levelOf? (g.value? "--level")
    if name == "show" then some (.list root ((g.value? "--file").map Path.ofText) level)
    else do
      let id ← (← other).typedInt?
      let tags := g.values "--type"
      some (.edit id root level (if tags.isEmpty then none else some tags))

end Command

namespace Invocation

/-- The arguments behind the name of a command. -/
def ofCommand (verbose : Bool) (name : Text) (arguments : List Text) : Invocation :=
  match Command.shapes.find? (·.1 == name) with
  | none => .misuse
  | some (_, table, most) =>
    match OptionTable.read (Command.helpOption :: table) [('h', "--help")] true arguments with
    | none => .misuse
    | some g =>
      if g.has "--help" then .commandHelp verbose
      else if most < g.others.length then .misuse
      else match Command.ofGiven? name g with
        | some c => .command verbose c
        | none => .misuse

/-- All arguments. -/
def ofArguments (arguments : List Text) : Invocation :=
  let table : OptionTable := [("--verbose", false), Command.helpOption]
  match OptionTable.read table [('v', "--verbose"), ('h', "--help")] false arguments with
  | none => .misuse
  | some g =>
    if g.has "--help" then .help
    else match g.others with
      | [] => .misuse
      | name :: rest => ofCommand (g.has "--verbose") name rest

end Invocation

end Marginalia
