import Marginalia.Sequence

/-!
Texts and bytes. A text is the list of its characters, so that lengths, columns and cuts all
count characters; bytes appear only at the edge of files.
-/

namespace Marginalia

abbrev Text := List Char

abbrev Bytes := List UInt8

namespace Text

instance : Coe String Text := ⟨String.toList⟩

/-- The decimal digits of an integer, with a sign only when it is negative. -/
def ofInt (n : Int) : Text :=
  match n with
  | .ofNat k => Nat.toDigits 10 k
  | .negSucc k => '-' :: Nat.toDigits 10 (k + 1)

def ofNat (n : Nat) : Text := Nat.toDigits 10 n

end Text

end Marginalia
