import Marginalia.Text.CaseTable

/-!
Lower case. A character has one lower-case form, but for the dotted capital I, which becomes two
characters, and the capital sigma, whose form depends on its place in the word.
-/

namespace Marginalia.Text

/-- The lower-case form of a character on its own. -/
def lowerChar (c : Char) : Char :=
  let n := c.toNat
  match caseRuns.find? fun r => r.first ≤ n && n ≤ r.last && (n - r.first) % r.step == 0 with
  | some r => Char.ofNat (Int.toNat (n + r.offset))
  | none => c

def isCased (c : Char) : Bool := inRanges casedRanges c

def isCaseIgnorable (c : Char) : Bool := inRanges caseIgnorableRanges c

/-- The first character that counts, if any, is a letter with a case. -/
def startsCased (t : Text) : Bool :=
  match t.dropWhile isCaseIgnorable with
  | c :: _ => isCased c
  | [] => false

/-- Lower case, with the characters before in reverse order. -/
def lowerAfter (before : Text) : Text → Text
  | [] => []
  | c :: rest =>
    let small : Text :=
      if c = '\u0130' then ['i', '\u0307']
      else if c = '\u03A3' then
        [if startsCased before && !startsCased rest then '\u03C2' else '\u03C3']
      else [lowerChar c]
    small ++ lowerAfter (c :: before) rest

def lower (t : Text) : Text := lowerAfter [] t

end Marginalia.Text
