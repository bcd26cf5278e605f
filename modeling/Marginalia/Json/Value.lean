import Marginalia.Text.Basic

/-!
JSON values. An object is the list of its fields as they are written, repeated keys included;
a number without fraction and exponent is an integer of any size.
-/

namespace Marginalia

inductive Json where
  | null
  | bool (b : Bool)
  | int (n : Int)
  | float (x : Float)
  | string (t : Text)
  | array (items : List Json)
  | object (fields : List (Text × Json))
  deriving Inhabited

namespace Json

/-- The last field with that key. -/
def lastField? (key : Text) (fields : List (Text × Json)) : Option Json :=
  (fields.reverse.find? (·.1 == key)).map (·.2)

/-- The values that stand for nothing: the empty ones, zero and false. -/
def isFalsy : Json → Bool
  | null => true
  | bool b => !b
  | int n => n == 0
  | float x => x == 0
  | string t => t.isEmpty
  | array items => items.isEmpty
  | object fields => fields.isEmpty

end Json

end Marginalia
