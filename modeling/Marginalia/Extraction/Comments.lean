import Marginalia.Comment.Markers
import Marginalia.Comment.Paragraph
import Marginalia.Comment.Span
import Marginalia.Comment.Token
import Marginalia.Extraction.Grammar
import Marginalia.Log
import Marginalia.Record.Stored
import Marginalia.Settings
import Marginalia.SyntaxTree.Selection

/-!
Extraction of the records of one source: by the syntax tree where there is a grammar and the text is
not too large, and else by the look of the text.
-/

namespace Marginalia

namespace Source

def language? (s : Source) : Option Language := Language.named? s.label

/-- The record of one paragraph of a capture. -/
def recordOf (s : Source) (lines : List Text) (capture : Capture) (cleaned paragraph : Text) :
    Except Failure Record :=
  match Comment.recoverSpan? capture cleaned paragraph lines with
  | none => .error .outOfRange
  | some span =>
    (Record.checkRows {
      id := 0
      language := s.label
      content := paragraph
      className := capture.context.className
      relativePath := []
      level := capture.context.level
      tags := []
      rows := span.rows
      columns := span.columns
      commitDate := [] }).orFail .invalid

/-- The records of a capture, one for each paragraph. -/
def recordsOf (s : Source) (lines : List Text) (capture : Capture) :
    Except Failure (List Record) :=
  let cleaned := Comment.clean s.language? capture.text
  (Comment.paragraphs s.language? cleaned).mapM (s.recordOf lines capture cleaned)

def buildRecords (s : Source) (captures : List Capture) : Except Failure (List Record) :=
  List.flatten <$> captures.mapM (s.recordsOf s.lines)

/-- The records of the comments that the text shows by itself. -/
def recordsByTokens (s : Source) : Except Failure (List Record) :=
  s.buildRecords (Comment.tokenCaptures s)

/-- The captures of the comments in a syntax tree of the source. -/
def treeCaptures (s : Source) (t : SyntaxTree) : Except Failure (List Capture) :=
  match s.language?.bind t.captures? with
  | some captures => .ok captures
  | none => .error .outOfRange

/-- The records of the comments in the syntax tree. -/
def recordsByGrammar (s : Source) (grammar : Grammar) (settings : Settings) :
    Except Failure (List Record) := do
  let _ ← Language.withGrammar s.label
  if (s.size : Int) > settings.maxFileSize then
    .error (.tooLarge s.path s.size settings.maxFileSize)
  let t ← grammar.parse s.label settings.parseTimeout s.text
  s.buildRecords (← s.treeCaptures t)

/-- What is noted when the syntax tree is done without; `none` for failures that are not met so. -/
def fallbackNote? (s : Source) (f : Failure) : Option LogEntry :=
  if f.isA .unsupportedLanguage then
    some (.debug ("Regex extraction for " ++ s.path ++ " (" ++ s.label ++ ")"))
  else if f.isA .fileTooLarge || f.isA .grammarFailure then
    some (.warning ("Falling back to regex extraction: " ++ f.message))
  else none

/-- The records of the source, and the note on how they were found. -/
def extract (s : Source) (grammar : Grammar) (settings : Settings) :
    Log × Except Failure (List Record) :=
  match s.recordsByGrammar grammar settings with
  | .ok records => ([], .ok records)
  | .error f =>
    match s.fallbackNote? f with
    | some note => ([note], s.recordsByTokens)
    | none => ([], .error f)

end Source

end Marginalia
