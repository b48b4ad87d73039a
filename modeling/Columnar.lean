import Columnar.Cache.Concurrent
import Columnar.Catalog.Text
import Columnar.Ids
import Columnar.Row.Description
import Columnar.Session.Basic
import Columnar.Proofs.Outcome
import Columnar.Proofs.Json.Integers
import Columnar.Proofs.Json.Scanning
import Columnar.Proofs.Json.Reading
import Columnar.Proofs.Catalog.Reference
import Columnar.Proofs.Catalog.Description
import Columnar.Proofs.Catalog.RoundTrip
import Columnar.Proofs.Schema.Regular
import Columnar.Proofs.Schema.Subtree
import Columnar.Proofs.Schema.Unfolding
import Columnar.Proofs.Schema.Compilation
import Columnar.Proofs.Schema.Stack
import Columnar.Proofs.Schema.Cycles
import Columnar.Proofs.Schema.Positions
import Columnar.Proofs.Plan.Shape
import Columnar.Proofs.Plan.Agreement
import Columnar.Proofs.Plan.Writable
import Columnar.Proofs.Row.Conformance
import Columnar.Proofs.Row.Staging
import Columnar.Proofs.Row.Walk
import Columnar.Proofs.Batch.Layout
import Columnar.Proofs.Batch.Assembly
import Columnar.Proofs.Batch.Writing
import Columnar.Proofs.Batch.Addressing
import Columnar.Proofs.Batch.Offsets
import Columnar.Proofs.Batch.Emptying
import Columnar.Proofs.Batch.Watched
import Columnar.Proofs.Batch.Capacity
import Columnar.Proofs.Batch.Reading
import Columnar.Proofs.Batch.Parts
import Columnar.Proofs.Row.Storing
import Columnar.Proofs.Handle.Invariant
import Columnar.Proofs.Handle.RoundTrip
import Columnar.Proofs.Handle.Alignment
import Columnar.Proofs.Handle.Atomicity
import Columnar.Proofs.Handle.Acceptance
import Columnar.Proofs.Handle.Finishing
import Columnar.Proofs.Handle.Offsets
import Columnar.Proofs.Handle.Calls
import Columnar.Proofs.Handle.Sizing
import Columnar.Proofs.Cache.Slots
import Columnar.Proofs.Cache.Interleaving
import Columnar.Proofs.Cache.Sharing
import Columnar.Proofs.Cache.Numbering
import Columnar.Proofs.Handle.Reservation
import Columnar.Proofs.Schema.TypeString
import Columnar.Proofs.Plan.Listing
import Columnar.Proofs.Plan.Recovery
import Columnar.Proofs.Calendar
import Columnar.Proofs.Row.Exactness
import Columnar.Proofs.Plan.Composition
import Columnar.Proofs.Plan.Locality
import Columnar.Proofs.Plan.Ownership
import Columnar.Proofs.Text.Bytes
import Columnar.Proofs.Catalog.Insertion
import Columnar.Proofs.Session.Settings
import Columnar.Proofs.Plan.Paths
import Columnar.Proofs.Row.Subjects
import Columnar.Proofs.Handle.Naming
