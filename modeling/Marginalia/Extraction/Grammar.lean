import Marginalia.Failure.Cause
import Marginalia.SyntaxTree.Basic

/-!
Grammars: parsers that lie outside of this library. All that matters here is what comes of handing
them a text.
-/

namespace Marginalia

inductive ParseOutcome where
  | tree (t : SyntaxTree)
  | nothing
  | timedOut
  | refused (reason : Text)
  | broken (reason : Text)

/-- What each parser makes of each text. -/
abbrev Grammar := Language → Text → ParseOutcome

/-- The language of a label, if there is a grammar for it. -/
def Language.withGrammar (label : Text) : Except Failure Language :=
  match (named? label).filter hasGrammar with
  | some l => .ok l
  | none => .error (.language (.noGrammar label))

/-- The tree of a text under the grammar of a label. -/
def Grammar.parse (grammar : Grammar) (label : Text) (timeout : Float) (text : Text) :
    Except Failure SyntaxTree := do
  let language ← Language.withGrammar label
  match grammar language text with
  | .tree t => .ok t
  | .nothing => .error (.noTree label)
  | .timedOut => .error (.parseTimeout label timeout)
  | .refused reason => .error (.parserFailed label reason)
  | .broken reason => .error (.wrongType reason)

end Marginalia
