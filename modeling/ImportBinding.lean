import ImportBinding.Text.Blank
import ImportBinding.Text.Quoted
import ImportBinding.Digest
import ImportBinding.Identifier
import ImportBinding.Naming
import ImportBinding.Passing
import ImportBinding.Binding.State
import ImportBinding.Decimal.Shortest
import ImportBinding.Json.Printer
import ImportBinding.Json.Cursor
import ImportBinding.Json.Literal
import ImportBinding.Json.Tree
import ImportBinding.Json.Record
import ImportBinding.Json.Pointer
import ImportBinding.Patch.Format
import ImportBinding.Declaration.Format
import ImportBinding.Report.Format
import ImportBinding.Conformance
import ImportBinding.Source.Module
import ImportBinding.Binding.Cell
import ImportBinding.Files.Workspace
import ImportBinding.Command.Run
import ImportBinding.Main
import ImportBinding.Proofs.Json.Members
import ImportBinding.Proofs.Json.Place
import ImportBinding.Proofs.Json.Record
import ImportBinding.Proofs.Json.Extent
import ImportBinding.Proofs.Json.Index
import ImportBinding.Proofs.Json.Escape
import ImportBinding.Proofs.Json.Segments
import ImportBinding.Proofs.Json.Reading
import ImportBinding.Proofs.Declaration.Reading
import ImportBinding.Proofs.Declaration.Target
import ImportBinding.Proofs.Declaration.Mend
import ImportBinding.Proofs.Declaration.Address
import ImportBinding.Proofs.Patch.Edit
import ImportBinding.Proofs.Declaration.Simulation
import ImportBinding.Proofs.Conformance
import ImportBinding.Proofs.Conformance.Exactness
import ImportBinding.Proofs.Conformance.Selection
import ImportBinding.Proofs.Patch.Lookup
import ImportBinding.Proofs.Patch.Put
import ImportBinding.Proofs.Patch.Inverse
import ImportBinding.Proofs.Patch.Landing
import ImportBinding.Proofs.Patch.InPlace
import ImportBinding.Proofs.Declaration.Resolution
import ImportBinding.Proofs.Conformance.Surfaces
import ImportBinding.Proofs.Naming
import ImportBinding.Proofs.Binding
import ImportBinding.Proofs.Binding.Load
import ImportBinding.Proofs.Source.Scan
import ImportBinding.Proofs.Source.Reading
import ImportBinding.Proofs.Source.Entry
import ImportBinding.Proofs.Source.Module
import ImportBinding.Proofs.Identifier
import ImportBinding.Proofs.Identifier.ModuleName
import ImportBinding.Proofs.Surface.Plan
import ImportBinding.Proofs.Surface.Acceptance
import ImportBinding.Proofs.Surface.Shadowing
import ImportBinding.Proofs.Source.Coherence
import ImportBinding.Proofs.Naming.Run
import ImportBinding.Proofs.Naming.Append
import ImportBinding.Proofs.Source.Siblings
import ImportBinding.Proofs.Source.Parameters
import ImportBinding.Proofs.Source.Documentation
import ImportBinding.Proofs.Source.Passing
import ImportBinding.Proofs.Json.Form
import ImportBinding.Proofs.Report.Form
import ImportBinding.Proofs.Json.Numeral
import ImportBinding.Proofs.Json.Spelling
import ImportBinding.Proofs.Json.Number
import ImportBinding.Proofs.Json.Restoring
import ImportBinding.Proofs.Patch.Restoring
import ImportBinding.Proofs.Report.Restoring
import ImportBinding.Proofs.Json.Quoted
import ImportBinding.Proofs.Patch.Regular
import ImportBinding.Proofs.Files.Node
import ImportBinding.Proofs.Files.Workspace
import ImportBinding.Proofs.Command.Session
import ImportBinding.Proofs.Command.Fix
import ImportBinding.Proofs.Command.Batch
import ImportBinding.Proofs.Patch.Mend
import ImportBinding.Proofs.Patch.Spelling
import ImportBinding.Proofs.Report.Order
import ImportBinding.Proofs.Conformance.Frame
