import BoundTemplate.Text.Locate
import BoundTemplate.Template.Query
import BoundTemplate.Template.Read
import BoundTemplate.Output.Checker
import BoundTemplate.Proofs.Choosing
import BoundTemplate.Proofs.Text.Excerpt
import BoundTemplate.Proofs.Text.LineStarts
import BoundTemplate.Proofs.Text.LineTable
import BoundTemplate.Proofs.Text.Moving
import BoundTemplate.Proofs.Text.Part
import BoundTemplate.Proofs.Text.Searching
import BoundTemplate.Proofs.Text.Slice
import BoundTemplate.Proofs.Text.Trim
import BoundTemplate.Proofs.Markup.Attribute
import BoundTemplate.Proofs.Markup.BareAngle
import BoundTemplate.Proofs.Markup.Building
import BoundTemplate.Proofs.Markup.Closing
import BoundTemplate.Proofs.Markup.Completion
import BoundTemplate.Proofs.Markup.EndTag
import BoundTemplate.Proofs.Markup.Layout
import BoundTemplate.Proofs.Markup.Progress
import BoundTemplate.Proofs.Markup.RawEnd
import BoundTemplate.Proofs.Markup.RawText
import BoundTemplate.Proofs.Markup.Scanning
import BoundTemplate.Proofs.Script.Enclosed
import BoundTemplate.Proofs.Script.Row
import BoundTemplate.Proofs.Script.Running
import BoundTemplate.Proofs.Script.Standard
import BoundTemplate.Proofs.Directive.Acceptance
import BoundTemplate.Proofs.Directive.Completion
import BoundTemplate.Proofs.Directive.Grammar
import BoundTemplate.Proofs.Directive.Readers
import BoundTemplate.Proofs.Directive.Verbatim
import BoundTemplate.Proofs.Binding.Laws
import BoundTemplate.Proofs.Binding.Layout
import BoundTemplate.Proofs.Binding.List
import BoundTemplate.Proofs.Binding.Naming
import BoundTemplate.Proofs.Binding.Recovery
import BoundTemplate.Proofs.Binding.Splitting
import BoundTemplate.Proofs.Binding.Spread
import BoundTemplate.Proofs.Binding.Verbatim
import BoundTemplate.Proofs.Binding.Wrapper
import BoundTemplate.Proofs.Template.Bindings
import BoundTemplate.Proofs.Template.Delimiting
import BoundTemplate.Proofs.Template.Innermost
import BoundTemplate.Proofs.Template.Layout
import BoundTemplate.Proofs.Template.Machine
import BoundTemplate.Proofs.Template.Mirroring
import BoundTemplate.Proofs.Template.Numbering
import BoundTemplate.Proofs.Template.Options
import BoundTemplate.Proofs.Template.Pairing
import BoundTemplate.Proofs.Template.Reading
import BoundTemplate.Proofs.Template.Slicing
import BoundTemplate.Proofs.Template.Tiling
import BoundTemplate.Proofs.Template.Verbatim
import BoundTemplate.Proofs.Output.Adding
import BoundTemplate.Proofs.Output.Appending
import BoundTemplate.Proofs.Output.Bookkeeping
import BoundTemplate.Proofs.Output.Boundary
import BoundTemplate.Proofs.Output.Checker
import BoundTemplate.Proofs.Output.Composing
import BoundTemplate.Proofs.Output.Copying
import BoundTemplate.Proofs.Output.Edit
import BoundTemplate.Proofs.Output.Following
import BoundTemplate.Proofs.Output.Gaps
import BoundTemplate.Proofs.Output.Indenting
import BoundTemplate.Proofs.Output.Line
import BoundTemplate.Proofs.Output.LineStart
import BoundTemplate.Proofs.Output.Locating
import BoundTemplate.Proofs.Output.Lookup
import BoundTemplate.Proofs.Output.Order
import BoundTemplate.Proofs.Output.Passage
import BoundTemplate.Proofs.Output.Rendering
import BoundTemplate.Proofs.Output.Revision
import BoundTemplate.Proofs.Output.Run
import BoundTemplate.Proofs.Output.Smallest
import BoundTemplate.Proofs.Output.Snapshot
import BoundTemplate.Proofs.Output.Successive
import BoundTemplate.Proofs.Output.Writing
