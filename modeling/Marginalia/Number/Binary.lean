/-!
Double-precision numbers taken apart: a sign, and for a finite number the product of a whole
number with a power of two.
-/

namespace Marginalia.Number

/-- The exact value of a double, apart from its sign. -/
inductive Magnitude where
  | finite (mantissa : Nat) (exponent : Int)
  | infinite
  | notANumber
  deriving DecidableEq, Repr

def isNegative (x : Float) : Bool := x.toBits.toNat ≥ Nat.pow 2 63

def magnitude (x : Float) : Magnitude :=
  let bits : Nat := x.toBits.toNat % Nat.pow 2 63
  let exponent : Nat := bits / Nat.pow 2 52
  let fraction : Nat := bits % Nat.pow 2 52
  if exponent = 2047 then (if fraction = 0 then .infinite else .notANumber)
  else if exponent = 0 then .finite fraction (-1074)
  else .finite (fraction + Nat.pow 2 52) ((exponent : Int) - 1075)

def isFinite (x : Float) : Bool :=
  match magnitude x with
  | .finite .. => true
  | _ => false

/-- The integer that a double is equal to, if there is one. -/
def wholeValue? (x : Float) : Option Int :=
  match magnitude x with
  | .finite m e =>
    let n : Option Nat :=
      if 0 ≤ e then some (m * Nat.pow 2 e.toNat)
      else if m % Nat.pow 2 (-e).toNat = 0 then some (m / Nat.pow 2 (-e).toNat)
      else none
    n.map fun k => if isNegative x then -(k : Int) else k
  | _ => none

/-- The double nearest to `digits · 10 ^ exponent`. Past the range of doubles the exponent is cut,
which changes nothing: such numbers are infinite or zero. -/
def ofDecimal (negative : Bool) (digits : Nat) (exponent : Int) : Float :=
  let size : Int := (Nat.toDigits 10 digits).length
  let x : Float :=
    if digits = 0 then 0.0
    else if exponent + size > 400 then Float.ofScientific 1 false 400
    else if exponent + size < -400 then 0.0
    else if exponent < 0 then Float.ofScientific digits true (-exponent).toNat
    else Float.ofScientific digits false exponent.toNat
  if negative then -x else x

end Marginalia.Number
