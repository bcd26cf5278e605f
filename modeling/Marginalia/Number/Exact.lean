import Marginalia.Number.Binary
import Marginalia.Text.Basic

/-!
The exact decimal form of a double. Every finite double is a whole number divided by a power of two,
and so a decimal fraction with finitely many places.
-/

namespace Marginalia.Number

/-- A whole number divided by a power of ten, with a point and at least one place behind it. -/
def pointed (n places : Nat) : Text :=
  let digits := Text.ofNat n
  let digits := List.replicate (places + 1 - digits.length) '0' ++ digits
  let whole := digits.take (digits.length - places)
  let fraction := Sequence.dropEndWhile (· == '0') (digits.drop (digits.length - places))
  whole ++ '.' :: (if fraction.isEmpty then ['0'] else fraction)

/-- All digits of a double; values that are not finite are words. -/
def exact (x : Float) : Text :=
  let sign : Text := if isNegative x then ['-'] else []
  match magnitude x with
  | .notANumber => "NaN"
  | .infinite => sign ++ "Infinity"
  | .finite m e =>
    if 0 ≤ e then sign ++ pointed (m * Nat.pow 2 e.toNat) 0
    else sign ++ pointed (m * Nat.pow 5 (-e).toNat) (-e).toNat

end Marginalia.Number
