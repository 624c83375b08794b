import BoundTemplate.Markup.Builder

/-!
# Documents of markup

The document of a text is what a builder makes of all of it: the tree, and what
is wrong. Elements that are open at the end of the text end there.
-/

namespace BoundTemplate.Markup

variable {tokenizer : Tokenizer} {source : Text}

namespace Builder

/-- Reads to the end of the text, or to a token that cannot be read. -/
def run (b : Builder tokenizer source) : Except LocationError (Builder tokenizer source) :=
  match hread : b.next with
  | .error failure => .ok (b.keepRest failure)
  | .ok none => .ok b
  | .ok (some (token, behind)) =>
    match hadd : behind.add token b.offset with
    | .error e => .error e
    | .ok next =>
      have := offset_lt_of_add hread hadd
      have := next.offset_le_size
      next.run
termination_by source.size - b.offset
decreasing_by omega

end Builder

/-- The markup of a text. -/
structure Document where
  nodes : List Node
  /-- What is wrong, in the order in which it was met. -/
  problems : List (Span × Problem)

/-- Reads the markup of a text. -/
def Document.ofText (tokenizer : Tokenizer) (source : Text) : Except LocationError Document := do
  let b ← (Builder.start tokenizer source).run
  let complete := b.closeAt source.size b.stack.length
  return ⟨complete.roots.reverse, complete.problems.reverse⟩

end BoundTemplate.Markup
