import Marginalia.Batch.Basic

/-!
Reconciliation: a fresh extraction meets what is known about the same file. Comments are recognised
by their content alone.
-/

namespace Marginalia

structure Reconciliation where
  preserved : List Record
  toReclassify : List Record
  deriving DecidableEq, Repr, Inhabited

namespace Reconciliation

def merged (r : Reconciliation) : List Record := r.preserved ++ r.toReclassify

/-- The last of the records with that content. -/
def known? (previous : List Record) (content : Text) : Option Record :=
  previous.reverse.find? (·.content == content)

/-- The current records whose content is known take over tags and level; the others start without
tags. Both parts keep their order. -/
def separate (previous current : List Record) : Reconciliation where
  preserved := current.filterMap fun r =>
    (known? previous r.content).map fun k => { r with tags := k.tags, level := k.level }
  toReclassify :=
    (current.filter fun r => (known? previous r.content).isNone).map fun r => r.withTags []

/-- Every file of the current batch against the same file of the previous one. -/
def ofBatches (previous current : Batch) : List (Text × Reconciliation) :=
  current.files.map fun (path, rs) => (path, separate ((previous.get? path).getD []) rs)

end Reconciliation

end Marginalia
