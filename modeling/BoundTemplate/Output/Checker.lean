import BoundTemplate.Output.Snapshot
import BoundTemplate.Template.Query

/-!
# Checker code

The checker of a template is a function that makes one call for each binding,
named for the binding and with its parameter as the argument. The argument is
copied word for word, so that a place in it can be taken back to the template.
-/

namespace BoundTemplate.Output

namespace Chunk

/-- Writes the call for a binding on a line of its own. -/
def appendCall (binding : Binding) (c : Chunk) : Chunk :=
  let named := (c.append "check_".toList).appendMapped binding.name.text
    { span := binding.name.range.span }
  let argued := (named.append ['(']).appendMapped binding.param.text
    { span := binding.param.range.span, verbatim := true }
  argued.append ");\n".toList

/-- The checker of some bindings. -/
def checker (options : ChunkOptions) (bindings : List Binding) : Chunk :=
  let start : Chunk := { options }
  let calls := bindings.foldl (fun c b => c.appendCall b)
    ((start.append "function view() \x7b\n".toList).indent 1)
  (calls.dedent 1).append ['}']

end Chunk

/-- The checker of a template beside it. -/
def Snapshot.checker (options : ChunkOptions) (template : Text) (tree : SyntaxTree) : Snapshot :=
  .ofChunk (.checker options tree.bindings) template

end BoundTemplate.Output
