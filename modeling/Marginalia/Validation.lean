import Marginalia.Json.Value
import Marginalia.Text.Blank
import Marginalia.Text.Integer
import Marginalia.Number.Binary

/-!
Validation: a value is read field by field, and all its faults are reported in the order of the
fields, each with the place where it was found.
-/

namespace Marginalia

/-- What is wrong with a value. -/
inductive Fault where
  | notJson
  | notRecord
  | notBatch
  | notList
  | notPair
  | tooLong
  | missing
  | notString
  | notInteger
  | unreadableInteger
  | fractional
  | notFinite
  | notLevel
  | notNumber
  | unreadableNumber
  | notBoolean
  | unreadableBoolean
  | notAbove
  | below
  | rejected (reason : Text)
  deriving DecidableEq, Repr

/-- One step into a value. -/
inductive Place where
  | key (name : Text)
  | position (index : Nat)
  deriving DecidableEq, Repr

/-- A fault and the steps that lead to it. -/
structure Issue where
  fault : Fault
  place : List Place
  deriving DecidableEq, Repr

/-- A value, or all the issues that keep it from being read. -/
inductive Validated (α : Type) where
  | valid (value : α)
  | invalid (issues : List Issue)

namespace Validated

variable {α β : Type}

def fault (f : Fault) : Validated α := .invalid [⟨f, []⟩]

def map (f : α → β) : Validated α → Validated β
  | valid a => valid (f a)
  | invalid issues => invalid issues

/-- Both parts are looked at, and the issues of the first come first. -/
def both (f : Validated (α → β)) (a : Validated α) : Validated β :=
  match f, a with
  | valid g, valid x => valid (g x)
  | valid _, invalid issues => invalid issues
  | invalid issues, valid _ => invalid issues
  | invalid first, invalid second => invalid (first ++ second)

/-- A further check, made only when the value could be read. -/
def andThen (a : Validated α) (f : α → Validated β) : Validated β :=
  match a with
  | valid x => f x
  | invalid issues => invalid issues

/-- The same value, read one step further inside. -/
def within (place : Place) : Validated α → Validated α
  | valid a => valid a
  | invalid issues => invalid (issues.map fun i => { i with place := place :: i.place })

instance : Functor Validated where
  map := map

instance : Seq Validated where
  seq f a := both f (a ())

/-- The items read one by one, the first at position `start`. -/
def itemsFrom (read : Json → Validated α) : Nat → List Json → Validated (List α)
  | _, [] => valid []
  | start, v :: vs =>
    (List.cons <$> (read v).within (.position start)) <*> itemsFrom read (start + 1) vs

def items (read : Json → Validated α) (vs : List Json) : Validated (List α) := itemsFrom read 0 vs

end Validated

namespace Json

open Validated

def asString : Json → Validated Text
  | string t => valid t
  | _ => fault .notString

def asArray : Json → Validated (List Json)
  | array vs => valid vs
  | _ => fault .notList

/-- A boolean counts as zero or one, a number with no fraction and a spelled-out integer as what
they are. -/
def asInteger : Json → Validated Int
  | int n => valid n
  | bool b => valid (if b then 1 else 0)
  | float x =>
    if !Number.isFinite x then fault .notFinite
    else match Number.wholeValue? x with
      | some n => valid n
      | none => fault .fractional
  | string t =>
    match t.storedInt? with
    | some n => valid n
    | none => fault .unreadableInteger
  | _ => fault .notInteger

/-- Two integers. -/
def asPair : Json → Validated (Int × Int)
  | array vs =>
    match vs with
    | [] => invalid [⟨.missing, [.position 0]⟩, ⟨.missing, [.position 1]⟩]
    | [a] =>
      (Prod.mk <$> (asInteger a).within (.position 0)) <*> (fault .missing).within (.position 1)
    | [a, b] =>
      (Prod.mk <$> (asInteger a).within (.position 0)) <*> (asInteger b).within (.position 1)
    | _ => fault .tooLong
  | _ => fault .notPair

/-- The field under the first of the names that is present, read at that name; if none is present,
what stands in for it at the first name. -/
def fieldAs {α : Type} (fields : List (Text × Json)) (names : List Text)
    (absent : Validated α) (read : Json → Validated α) : Validated α :=
  match names.findSome? fun n => (lastField? n fields).map fun v => (n, v) with
  | some (n, v) => (read v).within (.key n)
  | none => absent.within (.key (names.head?.getD []))

end Json

end Marginalia
