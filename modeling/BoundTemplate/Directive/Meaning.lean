import BoundTemplate.Directive.Clause
import BoundTemplate.Template.Node
import BoundTemplate.Template.Problem

/-!
# Directives in the tree

The expression of a virtual element in the namespace `ok` is located in its
source: it becomes a directive, or has no meaning if it does not read as one. In
both cases there is at most one error.
-/

namespace BoundTemplate.Directive

/-- The error of a failure. -/
def Failure.locate (source : Source) (failure : Failure) : ParseError :=
  ⟨source.range (Span.empty failure.offset), .directive failure.problem⟩

/-- The import of a clause. -/
def Clause.locate (source : Source) (clause : Clause) : Import where
  range := source.range clause.span
  identifier := source.piece clause.name.span
  typeOnly := clause.typeOnly
  module :=
    let content := source.piece clause.module.content.span
    ⟨content.text, content.range, clause.module.quote⟩

/-- The directive of an outline. -/
def Outline.locate (source : Source) (outline : Outline) : Directive where
  name := source.piece outline.name.span
  param := source.piece outline.param.span
  clause := (outline.clause.bind Except.toOption).map (Clause.locate source)

/-- Why the import clause of an outline is none. -/
def Outline.failure? (outline : Outline) : Option Failure :=
  match outline.clause with
  | some (.error failure) => some failure
  | _ => none

/-- What the expression of a virtual element means, and what is wrong with it. -/
def read (source : Source) (expression : Span) : Meaning × Option ParseError :=
  match Outline.read (source.excerpt expression) with
  | .error failure => (.unknown, some (failure.locate source))
  | .ok outline =>
    (.directive (outline.locate source), outline.failure?.map (Failure.locate source))

end BoundTemplate.Directive
