import Marginalia.Json.Value
import Marginalia.Number.Exact
import Marginalia.Text.Quoted

/-!
JSON texts of values, in one line or with an indent of two spaces. Only quotes, backslashes and
control characters are escaped. Empty arrays and objects stay in one line in both forms.
-/

namespace Marginalia.Json

def escapeChar (c : Char) : Text :=
  match c with
  | '"' => "\\\""
  | '\\' => "\\\\"
  | '\x08' => "\\b"
  | '\t' => "\\t"
  | '\n' => "\\n"
  | '\x0C' => "\\f"
  | '\r' => "\\r"
  | c => if c.toNat < 0x20 then "\\u" ++ Text.hex 4 c.toNat else [c]

def stringText (t : Text) : Text := '"' :: t.flatMap escapeChar ++ ['"']

/-- The scalars. A number with a fraction is written with all its digits. -/
def scalarText : Json → Text
  | bool true => "true"
  | bool false => "false"
  | int n => Text.ofInt n
  | float x => Number.exact x
  | string t => stringText t
  | _ => "null"

mutual

def compact : Json → Text
  | array items => '[' :: compactItems items ++ [']']
  | object fields => '{' :: compactFields fields ++ ['}']
  | v => scalarText v

def compactItems : List Json → Text
  | [] => []
  | [v] => compact v
  | v :: vs => compact v ++ ',' :: compactItems vs

def compactFields : List (Text × Json) → Text
  | [] => []
  | [(k, v)] => stringText k ++ ':' :: compact v
  | (k, v) :: fs => stringText k ++ ':' :: compact v ++ ',' :: compactFields fs

end

/-- The start of a line at some depth. -/
def newLine (depth : Nat) : Text := '\n' :: List.replicate (2 * depth) ' '

mutual

/-- The text of a value whose first line is already indented to `depth`. -/
def indentedAt (depth : Nat) : Json → Text
  | array [] => "[]"
  | array (v :: vs) => '[' :: indentedItems (depth + 1) (v :: vs) ++ newLine depth ++ [']']
  | object [] => ['{', '}']
  | object (f :: fs) => '{' :: indentedFields (depth + 1) (f :: fs) ++ newLine depth ++ ['}']
  | v => scalarText v

def indentedItems (depth : Nat) : List Json → Text
  | [] => []
  | [v] => newLine depth ++ indentedAt depth v
  | v :: vs => newLine depth ++ indentedAt depth v ++ ',' :: indentedItems depth vs

def indentedFields (depth : Nat) : List (Text × Json) → Text
  | [] => []
  | [(k, v)] => newLine depth ++ stringText k ++ ": " ++ indentedAt depth v
  | (k, v) :: fs =>
    newLine depth ++ stringText k ++ ": " ++ indentedAt depth v ++ ',' :: indentedFields depth fs

end

def indented (v : Json) : Text := indentedAt 0 v

end Marginalia.Json
