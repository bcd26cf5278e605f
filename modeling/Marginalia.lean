import Marginalia.Main
import Marginalia.Proofs.Sequence
import Marginalia.Proofs.Sorting
import Marginalia.Proofs.Lines
import Marginalia.Proofs.Blank
import Marginalia.Proofs.Cleaning
import Marginalia.Proofs.Paragraphs
import Marginalia.Proofs.Spans
import Marginalia.Proofs.Captures
import Marginalia.Proofs.Records
import Marginalia.Proofs.Rows
import Marginalia.Proofs.Bounds
import Marginalia.Proofs.JsonScalars
import Marginalia.Proofs.JsonText
import Marginalia.Proofs.Utf8
import Marginalia.Proofs.Encoding
import Marginalia.Proofs.StoredForm
import Marginalia.Proofs.FileTree
import Marginalia.Proofs.RoundTrip
import Marginalia.Proofs.Moved
import Marginalia.Proofs.Consistent
import Marginalia.Proofs.TreeCaptures
import Marginalia.Proofs.LeadingRows
import Marginalia.Proofs.Batches
import Marginalia.Proofs.Validity
import Marginalia.Proofs.Fallback
import Marginalia.Proofs.Docstrings
import Marginalia.Proofs.Cursors
import Marginalia.Proofs.Attribution
import Marginalia.Proofs.Locality
import Marginalia.Proofs.Adjacency
import Marginalia.Proofs.ModuleHead
import Marginalia.Proofs.Selection
import Marginalia.Proofs.Agreement
import Marginalia.Proofs.Tokens
import Marginalia.Proofs.Runs
import Marginalia.Proofs.Update
import Marginalia.Proofs.Workflows
import Marginalia.Proofs.Outcomes
import Marginalia.Proofs.Resolution
import Marginalia.Proofs.Walks
import Marginalia.Proofs.Watching
import Marginalia.Proofs.Merging
import Marginalia.Proofs.Correspondence
import Marginalia.Proofs.Edits
import Marginalia.Proofs.Sessions
import Marginalia.Proofs.Reconciliation
import Marginalia.Proofs.Labels
import Marginalia.Proofs.Convergence
import Marginalia.Proofs.Survival
import Marginalia.Proofs.Stores
import Marginalia.Proofs.Writes
import Marginalia.Proofs.Writability
import Marginalia.Proofs.Sources
import Marginalia.Proofs.Coverage
import Marginalia.Proofs.Traversal
import Marginalia.Proofs.Partition
import Marginalia.Proofs.Segmentation
import Marginalia.Proofs.Alignment
import Marginalia.Proofs.Javadoc
import Marginalia.Proofs.Depth
import Marginalia.Proofs.Normalization
import Marginalia.Proofs.LineEnds
import Marginalia.Proofs.RawLines
import Marginalia.Proofs.Clamping
import Marginalia.Proofs.Margins
import Marginalia.Proofs.Lookups
import Marginalia.Proofs.Chronology
import Marginalia.Proofs.Headers
import Marginalia.Proofs.Spellings
import Marginalia.Proofs.Failures
import Marginalia.Proofs.Refusals
import Marginalia.Proofs.RelativePaths
