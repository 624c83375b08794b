import BoundTemplate.Directive.Failure
import BoundTemplate.Markup.Tokenizer
import BoundTemplate.Text.Position

/-!
# What is wrong with a template

Every stage of reading a template has problems of its own; an error is one of
them with the range of the template that it is about.
-/

namespace BoundTemplate

/-- A way in which a template is wrong. -/
inductive Problem where
  | markup (problem : Markup.Problem)
  /-- What a parser says of an expression. -/
  | script (message : String)
  | directive (problem : Directive.Problem)
  /-- What is bound cannot be read, and nothing is said of it. -/
  | bindingListInvalid
  /-- What is bound is no list of entries. -/
  | bindingListExpected
  | spreadBinding
  | computedBindingName
  /-- A method or an accessor stands in a binding list. -/
  | unsupportedBinding
  | unsupportedBindingName
  /-- The comment that ends a virtual element is missing. -/
  | endCommentExpected
  deriving DecidableEq, Repr

/-- The wording of a problem. -/
def Problem.message : Problem → String
  | markup p => p.message
  | script message => message
  | directive p => p.message
  | bindingListInvalid => "Invalid binding list"
  | bindingListExpected => "Expected a binding list"
  | spreadBinding => "Spread syntax is not supported in bindings"
  | computedBindingName => "Computed binding names are not supported"
  | unsupportedBinding => "Unsupported binding"
  | unsupportedBindingName => "Unsupported binding name"
  | endCommentExpected => "Missing end comment"

/-- A problem and what it is about. -/
structure ParseError where
  range : Range
  problem : Problem
  deriving DecidableEq, Repr

/-- The wording of an error, with its position. -/
def ParseError.render (e : ParseError) : String :=
  e.problem.message ++ " (" ++ e.range.start.render ++ ")"

end BoundTemplate
