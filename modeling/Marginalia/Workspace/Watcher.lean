import Marginalia.Language
import Marginalia.Log

/-!
Watchers: changes of files come in batches, and those of sources are handed on.
-/

namespace Marginalia

inductive ChangeKind where
  | added
  | modified
  | deleted
  deriving DecidableEq, Repr

structure Change where
  kind : ChangeKind
  path : Path
  deriving DecidableEq, Repr

/-- The sources that a batch of changes leaves changed, each once. -/
def Change.sources (changes : List Change) : List Path :=
  Sequence.distinctBy id
    ((changes.filter fun c => c.kind != .deleted && Language.isSupported c.path).map Change.path)

/-- A watcher is off, or has been started and not yet looked, or has handed on all that there was. -/
inductive WatchState where
  | off
  | started
  | delivered
  deriving DecidableEq, Repr

structure Watcher where
  directory : Path
  state : WatchState
  deriving DecidableEq, Repr

namespace Watcher

def isRunning (w : Watcher) : Bool := w.state != .off

/-- Starts a watcher that is off. -/
def start (w : Watcher) : Log × Watcher :=
  if w.isRunning then ([], w)
  else ([.info ("Watcher started for " ++ w.directory.toText)], { w with state := .started })

/-- Stops a watcher that is on. What it has not handed on yet is lost. -/
def stop (w : Watcher) : Log × Watcher :=
  if w.isRunning then
    ([.info ("Watcher stopped for " ++ w.directory.toText)], { w with state := .off })
  else ([], w)

variable {m : Type → Type} [Monad m]

/-- Hands on the sources of one batch, if there are any. `handle` tells whether it failed; that is
noted and changes nothing else. -/
def deliver (note : LogEntry → m Unit) (handle : List Path → m Bool) (changes : List Change) :
    m Unit := do
  let paths := Change.sources changes
  if paths.isEmpty then pure ()
  else
    note (.info ("Detected changes in " ++ Text.ofNat paths.length ++ " file(s)"))
    if ← handle paths then note (.error "Error in watcher callback") else pure ()

/-- Hands on batch after batch. -/
def deliverAll (note : LogEntry → m Unit) (handle : List Path → m Bool)
    (batches : List (List Change)) : m Unit :=
  batches.forM (deliver note handle)

/-- Lets a watcher that has been started look at everything there is. -/
def advance (note : LogEntry → m Unit) (handle : List Path → m Bool)
    (batches : List (List Change)) (w : Watcher) : m Watcher :=
  if w.state = .started then do
    deliverAll note handle batches
    pure { w with state := .delivered }
  else pure w

end Watcher

end Marginalia
