import BoundTemplate.Markup.Document
import BoundTemplate.Markup.Lexer
import BoundTemplate.Script.Grammar
import BoundTemplate.Template.Reading

/-!
# Reading templates

`Template.read` reads a template: its markup first, and from that the tree. A
template with errors still has a tree, unless a virtual element does not end. How
markup is taken apart and expressions are read is left to a tokenizer and to a
parser, which are the standard ones if no others are given.
-/

namespace BoundTemplate

/-- A template that has been read. -/
structure Template where
  /-- The tree, unless reading was ended by an error, which then is the last. -/
  tree : Option SyntaxTree
  errors : List ParseError

/-- What is wrong with the markup of a source. -/
def Markup.Document.errors (source : Source) (document : Markup.Document) : List ParseError :=
  document.problems.map fun (span, problem) => ⟨source.range span, .markup problem⟩

/-- Reads a template; that fails only if a byte order mark makes a name start or end inside a
character. -/
def Template.read (t : Text) (options : ReadOptions)
    (tokenizer : Markup.Tokenizer := .standard) (parser : Script.Parser := .standard) :
    Except LocationError Template := do
  let document ← Markup.Document.ofText tokenizer t
  let source := Source.ofText t
  let start : Progress := ⟨0, (document.errors source).reverse⟩
  let (result, progress) :=
    ((Setting.mk source options parser).readAll document.nodes).run.run start
  match result with
  | .ok nodes =>
    return ⟨some ⟨nodes, source.range ⟨0, t.size⟩, source.table.style⟩, progress.errors.reverse⟩
  | .error fatal => return ⟨none, (fatal :: progress.errors).reverse⟩

end BoundTemplate
