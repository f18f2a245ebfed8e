import Shrinker.Bytecode.Codec
import Shrinker.Bytecode.Instruction
import Shrinker.Bytecode.Opcode
import Shrinker.Bytecode.Operands
import Shrinker.Bytecode.TableIndices
import Shrinker.Bytecode.Text
import Shrinker.Bytecode.Word
import Shrinker.Collection.Ascending
import Shrinker.Collection.DepthFirst
import Shrinker.Error
import Shrinker.Lens.Apply
import Shrinker.Lens.Basic
import Shrinker.Lens.Record
import Shrinker.Liveness.Action
import Shrinker.Liveness.Analysis
import Shrinker.Liveness.Assertions
import Shrinker.Liveness.Body
import Shrinker.Liveness.LiveSet
import Shrinker.Liveness.Roots
import Shrinker.Liveness.Trace
import Shrinker.Options.Basic
import Shrinker.Options.Document
import Shrinker.Program.Access
import Shrinker.Program.Basic
import Shrinker.Program.Broken
import Shrinker.Program.Class
import Shrinker.Program.Code
import Shrinker.Program.Hierarchy
import Shrinker.Program.Lookup
import Shrinker.Publicizer.Basic
import Shrinker.Publicizer.Pass
import Shrinker.Reference.Descriptor
import Shrinker.Reference.Interner
import Shrinker.Reference.Table
import Shrinker.Session
import Shrinker.Toml.Digit
import Shrinker.Toml.Document
import Shrinker.Toml.Moment
import Shrinker.Toml.Number
import Shrinker.Toml.Quoted
import Shrinker.Toml.Reader
import Shrinker.Toml.Table
import Shrinker.Toml.Value
import Shrinker.Proofs.Bytecode.Checked
import Shrinker.Proofs.Bytecode.RoundTrip
import Shrinker.Proofs.Collection.DepthFirst
import Shrinker.Proofs.Collection.Keyed
import Shrinker.Proofs.Program.Distinct
import Shrinker.Proofs.Program.Hierarchy
import Shrinker.Proofs.Publicizer.Claim
import Shrinker.Proofs.Publicizer.Decision
import Shrinker.Proofs.Publicizer.Outcome
import Shrinker.Proofs.Publicizer.Collision
import Shrinker.Proofs.Publicizer.Dispatch
import Shrinker.Proofs.Liveness.Worklist
import Shrinker.Proofs.Liveness.Consequence
import Shrinker.Proofs.Liveness.Progress
import Shrinker.Proofs.Liveness.Uses
import Shrinker.Proofs.Program.Found
import Shrinker.Proofs.Liveness.Bound
import Shrinker.Proofs.Liveness.Fixpoint
import Shrinker.Proofs.Bytecode.Calls
import Shrinker.Proofs.Lens.Chain
import Shrinker.Proofs.Lens.Bodies
import Shrinker.Proofs.Publicizer.Records
import Shrinker.Proofs.Session.Steps
import Shrinker.Proofs.Session.Encoding
import Shrinker.Proofs.Program.Subtypes
import Shrinker.Proofs.Publicizer.Coverage
import Shrinker.Proofs.Reference.Growth
import Shrinker.Proofs.Session.Failure
import Shrinker.Proofs.Liveness.Confluence
import Shrinker.Proofs.Publicizer.Repetition
import Shrinker.Proofs.Program.Additions
import Shrinker.Proofs.Bytecode.IdleBits
import Shrinker.Proofs.Reference.Spelling
import Shrinker.Proofs.Reference.Within
import Shrinker.Proofs.Reference.Canonical
import Shrinker.Proofs.Bytecode.Cuts
import Shrinker.Proofs.Lens.Initializers
import Shrinker.Proofs.Publicizer.Visibility
import Shrinker.Proofs.Publicizer.Workers
import Shrinker.Proofs.Publicizer.Schedules
import Shrinker.Proofs.Collection.Search
import Shrinker.Proofs.Program.Ancestors
import Shrinker.Proofs.Program.Nearest
import Shrinker.Proofs.Program.Defaults
import Shrinker.Proofs.Program.FieldSearch
import Shrinker.Proofs.Reference.Reading
import Shrinker.Proofs.Options.Validated
import Shrinker.Proofs.Lens.Passes
import Shrinker.Proofs.Lens.Recording
import Shrinker.Proofs.Liveness.Reading
import Shrinker.Proofs.Publicizer.Precedence
import Shrinker.Proofs.Reference.Grammar
import Shrinker.Proofs.Liveness.StatusPatterns
import Shrinker.Proofs.Reference.Rendering
import Shrinker.Proofs.Liveness.Turns
import Shrinker.Proofs.Liveness.Notices
import Shrinker.Proofs.Bytecode.Ordering
import Shrinker.Proofs.Bytecode.Admissible
import Shrinker.Proofs.Bytecode.Packing
import Shrinker.Proofs.Program.SubtypeSearch
