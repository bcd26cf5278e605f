import Marginalia.Json.Value
import Marginalia.Number.Binary
import Marginalia.Text.Integer

/-!
Reading of JSON texts. Besides the standard the words NaN, Infinity and -Infinity are numbers.
Refused are control characters and lone surrogates in strings, leading zeros, commas before a
closing bracket, and filled containers nested more than two hundred deep.
-/

namespace Marginalia.Json

def isSpace (c : Char) : Bool := c == ' ' || c == '\t' || c == '\n' || c == '\r'

def skipSpace (cs : Text) : Text := cs.dropWhile isSpace

/-- What remains behind a word that the text starts with. -/
def dropWord? (word cs : Text) : Option Text :=
  if word.isPrefixOf cs then some (cs.drop word.length) else none

def hexValue? (c : Char) : Option Nat :=
  if '0' ≤ c && c ≤ '9' then some (c.toNat - '0'.toNat)
  else if 'a' ≤ c && c ≤ 'f' then some (c.toNat - 'a'.toNat + 10)
  else if 'A' ≤ c && c ≤ 'F' then some (c.toNat - 'A'.toNat + 10)
  else none

/-- How far a string has been read. `high` is the first half of a surrogate pair. -/
inductive StringState where
  | plain
  | escape
  | unit (high : Option Nat) (missing : Nat) (value : Nat)
  | pair (high : Nat)
  | pairEscape (high : Nat)

def escaped? (c : Char) : Option Char :=
  match c with
  | '"' => some '"'
  | '\\' => some '\\'
  | '/' => some '/'
  | 'b' => some '\x08'
  | 'f' => some '\x0C'
  | 'n' => some '\n'
  | 'r' => some '\r'
  | 't' => some '\t'
  | _ => none

/-- What a finished code unit makes: a character, the first half of one, or nothing lawful. -/
def unitResult (high : Option Nat) (value : Nat) : Option (Char ⊕ Nat) :=
  match high with
  | none =>
    if 0xD800 ≤ value && value < 0xDC00 then some (.inr value)
    else if 0xDC00 ≤ value && value < 0xE000 then none
    else some (.inl (Char.ofNat value))
  | some h =>
    if 0xDC00 ≤ value && value < 0xE000 then
      some (.inl (Char.ofNat (0x10000 + (h - 0xD800) * 0x400 + (value - 0xDC00))))
    else none

/-- The rest of a string up to its closing quote, and what follows it. -/
def readString : StringState → Text → Option (Text × Text)
  | _, [] => none
  | .plain, c :: rest =>
    if c = '"' then some ([], rest)
    else if c = '\\' then readString .escape rest
    else if c.toNat < 0x20 then none
    else (readString .plain rest).map fun (t, more) => (c :: t, more)
  | .escape, c :: rest =>
    if c = 'u' then readString (.unit none 3 0) rest
    else match escaped? c with
      | some e => (readString .plain rest).map fun (t, more) => (e :: t, more)
      | none => none
  | .unit high missing value, c :: rest =>
    match hexValue? c with
    | none => none
    | some d =>
      match missing with
      | k + 1 => readString (.unit high k (value * 16 + d)) rest
      | 0 =>
        match unitResult high (value * 16 + d) with
        | none => none
        | some (.inr h) => readString (.pair h) rest
        | some (.inl e) => (readString .plain rest).map fun (t, more) => (e :: t, more)
  | .pair h, c :: rest => if c = '\\' then readString (.pairEscape h) rest else none
  | .pairEscape h, c :: rest => if c = 'u' then readString (.unit (some h) 3 0) rest else none

/-- The digits in front, and what follows them. -/
def spanDigits (cs : Text) : Text × Text :=
  (cs.takeWhile Text.isAsciiDigit, cs.dropWhile Text.isAsciiDigit)

/-- The digits of a whole number without leading zeros. -/
def readWhole : Text → Option (Text × Text)
  | '0' :: rest => some (['0'], rest)
  | cs =>
    let (ds, rest) := spanDigits cs
    if ds.isEmpty then none else some (ds, rest)

/-- The digits behind a point, if there is a point. -/
def readFraction : Text → Option (Text × Text)
  | '.' :: rest =>
    let (ds, rest) := spanDigits rest
    if ds.isEmpty then none else some (ds, rest)
  | cs => some ([], cs)

/-- The exponent, if the letter for one stands there. -/
def readExponent : Text → Option (Option Int × Text)
  | [] => some (none, [])
  | c :: rest =>
    if c = 'e' || c = 'E' then
      let (negative, body) := Text.splitSign rest
      let (ds, rest) := spanDigits body
      if ds.isEmpty then none
      else some (some (Text.signed negative (Nat.ofDigitChars 10 ds 0)), rest)
    else some (none, c :: rest)

def readUnsigned (negative : Bool) (cs : Text) : Option (Json × Text) := do
  let (whole, rest) ← readWhole cs
  let (fraction, rest) ← readFraction rest
  let (exponent, rest) ← readExponent rest
  match fraction, exponent with
  | [], none => some (.int (Text.signed negative (Nat.ofDigitChars 10 whole 0)), rest)
  | fraction, exponent =>
    let digits := Nat.ofDigitChars 10 (whole ++ fraction) 0
    some (.float (Number.ofDecimal negative digits (exponent.getD 0 - fraction.length)), rest)

/-- The words that are values, with their values. -/
def words : List (Text × Json) := [
  ("null", .null), ("true", .bool true), ("false", .bool false),
  ("NaN", .float (0.0 / 0.0)), ("Infinity", .float (1.0 / 0.0)), ("-Infinity", .float (-1.0 / 0.0))]

def readScalar (cs : Text) : Option (Json × Text) :=
  match words.findSome? fun (word, v) => (dropWord? word cs).map fun rest => (v, rest) with
  | some found => some found
  | none =>
    match cs with
    | '"' :: rest => (readString .plain rest).map fun (t, rest) => (.string t, rest)
    | '-' :: rest => readUnsigned true rest
    | cs => readUnsigned false cs

/-- At least one item, with commas between items, up to the closing mark. The bound on the number
of items is the length of the text. -/
def readItems {α : Type} (item : Text → Option (α × Text)) (close : Char) :
    Nat → Text → Option (List α × Text)
  | 0, _ => none
  | bound + 1, cs =>
    match item cs with
    | none => none
    | some (x, rest) =>
      match skipSpace rest with
      | [] => none
      | c :: rest =>
        if c = ',' then (readItems item close bound rest).map fun (xs, rest) => (x :: xs, rest)
        else if c = close then some ([x], rest)
        else none

/-- A key, a colon and a value. -/
def readField (value : Text → Option (Json × Text)) (cs : Text) : Option ((Text × Json) × Text) :=
  match skipSpace cs with
  | '"' :: rest =>
    match readString .plain rest with
    | none => none
    | some (key, rest) =>
      match skipSpace rest with
      | ':' :: rest => (value rest).map fun (v, rest) => ((key, v), rest)
      | _ => none
  | _ => none

/-- A value, behind white space, in which filled containers are nested at most `depth` deep. -/
def readValue (depth : Nat) (cs : Text) : Option (Json × Text) :=
  match skipSpace cs with
  | '[' :: rest =>
    match skipSpace rest with
    | ']' :: rest => some (.array [], rest)
    | rest =>
      match depth with
      | 0 => none
      | d + 1 =>
        (readItems (readValue d) ']' rest.length rest).map fun (items, rest) => (.array items, rest)
  | '{' :: rest =>
    match skipSpace rest with
    | '}' :: rest => some (.object [], rest)
    | rest =>
      match depth with
      | 0 => none
      | d + 1 =>
        (readItems (readField (readValue d)) '}' rest.length rest).map
          fun (fields, rest) => (.object fields, rest)
  | cs => readScalar cs

def maxDepth : Nat := 200

/-- The value that the whole text writes. -/
def parse? (cs : Text) : Option Json :=
  match readValue maxDepth cs with
  | some (v, rest) => if (skipSpace rest).isEmpty then some v else none
  | none => none

end Marginalia.Json
