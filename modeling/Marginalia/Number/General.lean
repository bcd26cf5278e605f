import Marginalia.Number.Binary
import Marginalia.Text.Basic

/-!
The short form of a number in a message: six significant digits without trailing zeros, with an
exponent where the number is below 0.0001 or needs more than six places in front of the point.
-/

namespace Marginalia.Number

def decimalLength (n : Nat) : Nat := (Nat.toDigits 10 n).length

/-- The whole number nearest to a quotient; a half goes to the even neighbour. -/
def roundQuotient (num den : Nat) : Nat :=
  let q := num / den
  let r := num % den
  if 2 * r < den then q
  else if den < 2 * r then q + 1
  else if q % 2 = 0 then q else q + 1

/-- The power of ten at or below a positive quotient. -/
def decimalExponent (num den : Nat) : Int :=
  if den ≤ num then (decimalLength (num / den) : Int) - 1
  else
    let shift := decimalLength den - decimalLength num
    if den ≤ num * Nat.pow 10 shift then -(shift : Int) else -(shift + 1 : Int)

/-- The first six digits of a positive quotient, rounded, and the power of ten of the first. -/
def sixDigits (num den : Nat) : Nat × Int :=
  let x := decimalExponent num den
  let scale := 5 - x
  let s := if 0 ≤ scale then roundQuotient (num * Nat.pow 10 scale.toNat) den
    else roundQuotient num (den * Nat.pow 10 (-scale).toNat)
  if s = Nat.pow 10 6 then (Nat.pow 10 5, x + 1) else (s, x)

/-- The digits behind the point, which is left out together with trailing zeros. -/
def fraction (digits : Text) : Text :=
  match Sequence.dropEndWhile (· == '0') digits with
  | [] => []
  | ds => '.' :: ds

def exponentText (x : Int) : Text :=
  let ds := Nat.toDigits 10 x.natAbs
  (if x < 0 then '-' else '+') :: List.replicate (2 - ds.length) '0' ++ ds

def generalPositive (num den : Nat) : Text :=
  let (s, x) := sixDigits num den
  let ds : Text := Nat.toDigits 10 s
  if -4 ≤ x && x < 0 then
    "0" ++ fraction (List.replicate (-x - 1).toNat '0' ++ ds)
  else if 0 ≤ x && x < 6 then
    ds.take (x.toNat + 1) ++ fraction (ds.drop (x.toNat + 1))
  else
    ds.take 1 ++ fraction (ds.drop 1) ++ 'e' :: exponentText x

def general (x : Float) : Text :=
  let sign : Text := if isNegative x then "-" else ""
  match magnitude x with
  | .notANumber => "nan"
  | .infinite => sign ++ "inf"
  | .finite m e =>
    if m = 0 then sign ++ ['0']
    else if 0 ≤ e then sign ++ generalPositive (m * Nat.pow 2 e.toNat) 1
    else sign ++ generalPositive m (Nat.pow 2 (-e).toNat)

end Marginalia.Number
