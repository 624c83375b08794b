import BoundTemplate.Text.Span

/-!
# Parsers of expressions

A parser reads one expression from the start of a text and does not look at what follows it. Of an
accepted expression it tells an outline: where it stands, and if it is an object literal, also where
the properties of that stand. Of any other text it tells what is wrong, and where, if it knows. How
it reads is its own affair.
-/

namespace BoundTemplate.Script

/-- What the key of a property is. -/
inductive KeyForm where
  | name
  | number
  | bigNumber
  | string
  | privateName
  /-- An expression between brackets. -/
  | computed
  deriving DecidableEq, Repr

/-- What a property gives its key. -/
inductive PropertyForm where
  /-- The value behind a colon. -/
  | value
  /-- The value of the name that is its key. -/
  | shorthand
  | method
  | getter
  | setter
  deriving DecidableEq, Repr

/-- What a key is and where it stands. The span of a computed one is that of its expression, and
that of a string has its quotes. -/
structure Outline.Key where
  form : KeyForm
  span : Span
  deriving DecidableEq, Repr

/-- A property of an object literal: where it stands, and its key and its value. -/
inductive Outline.Property where
  | spread (span : Span)
  | entry (span : Span) (key : Outline.Key) (form : PropertyForm) (value : Span)
  deriving DecidableEq, Repr

/-- What is told of an expression. -/
inductive Outline where
  | parenthesized (span : Span) (inner : Outline)
  | object (span : Span) (properties : List Outline.Property)
  /-- Any other expression. -/
  | other (span : Span)
  deriving Repr

namespace Outline

/-- The span of an expression. -/
def span : Outline → Span
  | parenthesized s _ | object s _ | other s => s

/-- An expression without the parentheses right around it. -/
def unparenthesized : Outline → Outline
  | parenthesized _ inner => inner
  | e => e

/-- The span of a property. -/
def Property.span : Property → Span
  | spread span | entry span _ _ _ => span

end Outline

/-- A message about a text, and the offset that it is about, if there is one. -/
structure Parser.Diagnostic where
  message : String
  offset? : Option Nat
  deriving DecidableEq, Repr

/-- A parser of expressions. -/
structure Parser where
  /-- Reads the expression at the start of a text, or tells what is wrong. -/
  read : Text → Except (List Parser.Diagnostic) Outline

end BoundTemplate.Script
