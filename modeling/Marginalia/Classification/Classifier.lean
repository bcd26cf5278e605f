import Marginalia.Batch.Basic
import Marginalia.Failure.Cause
import Marginalia.Log

/-!
Classifiers give records their tags and levels. They lie outside of this library; a classifier is
given here by its answers.
-/

namespace Marginalia

/-- What a classifier is asked for: some records of one file, or those of many files. -/
inductive Question where
  | file (records : List Record)
  | all (batch : Batch)

/-- The answers of a classifier, and what it notes before it gives them. -/
structure Classifier where
  notes : Question → Log
  file : List Record → Except Failure (List Record)
  all : Batch → Except Failure Batch

end Marginalia
