import FieldRules.Tag.Parser
import FieldRules.Failure
import FieldRules.Config.Error
import FieldRules.Text.Quoted
import FieldRules.Source.Item
import FieldRules.Chain
import FieldRules.Number.Shortest
import FieldRules.Config.SetTag
import FieldRules.Config.Plan
import FieldRules.Emit.Routine
import FieldRules.Derive.Expand
import FieldRules.Config.Part
import FieldRules.Run.Check
import FieldRules.Run.Datum
import FieldRules.Sample.Structs
import FieldRules.Proofs.Tag.Grammar
import FieldRules.Proofs.Tag.Reading
import FieldRules.Proofs.Config.Freezing
import FieldRules.Proofs.Emit.Names
import FieldRules.Proofs.Emit.Shape
import FieldRules.Proofs.Run.Meaning
import FieldRules.Proofs.Emit.Bindings
import FieldRules.Proofs.Emit.Hygiene
import FieldRules.Proofs.Config.Slots
import FieldRules.Proofs.Config.Routing
import FieldRules.Proofs.Config.Delivery
import FieldRules.Proofs.Tag.Printing
import FieldRules.Proofs.Run.Rooting
import FieldRules.Proofs.Run.Inlining
import FieldRules.Proofs.Config.Acceptance
import FieldRules.Proofs.Config.Reordering
import FieldRules.Proofs.Emit.Imports
import FieldRules.Proofs.Config.Inspections
import FieldRules.Proofs.Derive.Reporting
import FieldRules.Proofs.Run.Tightening
import FieldRules.Proofs.Number.IntegerBounds
import FieldRules.Proofs.Config.Refusal
import FieldRules.Proofs.Tag.Bytes
import FieldRules.Tag.Cursor
import FieldRules.Proofs.Derive.Blame
import FieldRules.Proofs.Source.Calls
import FieldRules.Proofs.Config.Chains
import FieldRules.Proofs.Tag.Prefixes
import FieldRules.Proofs.Derive.Newtypes
import FieldRules.Proofs.Derive.Joining
import FieldRules.Proofs.Emit.Renaming
import FieldRules.Proofs.Emit.Renumbering
import FieldRules.Proofs.Derive.Independence
import FieldRules.Proofs.Emit.Minting
import FieldRules.Proofs.Derive.Resolution
import FieldRules.Proofs.Number.Counts
