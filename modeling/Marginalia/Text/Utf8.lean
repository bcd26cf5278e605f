import Marginalia.Text.Basic

/-!
UTF-8. One scan cuts any byte string into characters and malformed stretches; the strict, the
replacing and the dropping reading are three views of it. A malformed stretch is as long as it
can be while it still begins some character, and at least one byte.
-/

namespace Marginalia

/-- What the scan finds: a character, or a stretch of bytes that encodes none. -/
inductive Utf8Piece where
  | char (c : Char)
  | malformed
  deriving DecidableEq, Repr

/-- A character that has begun: how many bytes are missing after the next one, the range in
which the next byte has to lie, and the value of the bits read so far. -/
structure Utf8Pending where
  missing : Nat
  low : Nat
  high : Nat
  value : Nat

/-- What a byte does outside any character: it is one, begins one, or is malformed. The narrowed
ranges of the second byte exclude overlong forms, surrogates and values past U+10FFFF. -/
def Utf8Piece.ofLead (b : Nat) : Utf8Piece ⊕ Utf8Pending :=
  if b < 0x80 then .inl (.char (Char.ofNat b))
  else if 0xC2 ≤ b && b ≤ 0xDF then .inr ⟨0, 0x80, 0xBF, b - 0xC0⟩
  else if b == 0xE0 then .inr ⟨1, 0xA0, 0xBF, 0⟩
  else if b == 0xED then .inr ⟨1, 0x80, 0x9F, 0xD⟩
  else if 0xE1 ≤ b && b ≤ 0xEF then .inr ⟨1, 0x80, 0xBF, b - 0xE0⟩
  else if b == 0xF0 then .inr ⟨2, 0x90, 0xBF, 0⟩
  else if 0xF1 ≤ b && b ≤ 0xF3 then .inr ⟨2, 0x80, 0xBF, b - 0xF0⟩
  else if b == 0xF4 then .inr ⟨2, 0x80, 0x8F, 4⟩
  else .inl .malformed

namespace Bytes

/-- The scan. `pending` is the character that the bytes before have begun. -/
def scanUtf8 : Option Utf8Pending → Bytes → List Utf8Piece
  | none, [] => []
  | some _, [] => [.malformed]
  | none, b :: rest =>
    match Utf8Piece.ofLead b.toNat with
    | .inl piece => piece :: scanUtf8 none rest
    | .inr p => scanUtf8 (some p) rest
  | some p, b :: rest =>
    if p.low ≤ b.toNat && b.toNat ≤ p.high then
      let value := p.value * 64 + (b.toNat - 0x80)
      match p.missing with
      | 0 => .char (Char.ofNat value) :: scanUtf8 none rest
      | k + 1 => scanUtf8 (some ⟨k, 0x80, 0xBF, value⟩) rest
    else
      .malformed :: match Utf8Piece.ofLead b.toNat with
        | .inl piece => piece :: scanUtf8 none rest
        | .inr q => scanUtf8 (some q) rest

def utf8Pieces (bs : Bytes) : List Utf8Piece := scanUtf8 none bs

/-- The reading in which a replacement character stands for every malformed stretch. -/
def decodeReplacing (bs : Bytes) : Text :=
  bs.utf8Pieces.map fun
    | .char c => c
    | .malformed => '\uFFFD'

/-- The reading that leaves malformed stretches out. -/
def decodeDropping (bs : Bytes) : Text :=
  bs.utf8Pieces.filterMap fun
    | .char c => some c
    | .malformed => none

/-- The reading that refuses malformed stretches. -/
def decode? (bs : Bytes) : Option Text :=
  bs.utf8Pieces.mapM fun
    | .char c => some c
    | .malformed => none

end Bytes

namespace Text

def encode (t : Text) : Bytes := t.flatMap String.utf8EncodeChar

/-- The number of bytes of the encoded text. -/
def utf8Length : Text → Nat
  | [] => 0
  | c :: rest => c.utf8Size + utf8Length rest

end Text

end Marginalia
