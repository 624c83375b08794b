import BoundTemplate.Script.Parser
import BoundTemplate.Script.Problem
import BoundTemplate.Script.Token

/-!
# Expressions of a script

Of an expression is kept what decides how it may be used: its span, its parts if it
may turn out to be a pattern, and the entries of an object literal. Everything else
about an expression is forgotten.
-/

namespace BoundTemplate.Script

/-- The key of a property. The span of a computed one is that of its expression, and that of a
string has its quotes. -/
structure Key (script : Text) where
  form : KeyForm
  span : Span
  quoted : form = .string → Quoted script span
  deriving DecidableEq, Repr

mutual

/-- An expression. -/
inductive Expr (script : Text) where
  | identifier (span : Span)
  /-- A member of an object, outside of an optional chain. -/
  | member (span : Span)
  | parenthesized (span : Span) (inner : Expr script)
  | array (span : Span) (elements : List (Element script))
  | object (span : Span) (properties : List (Property script))
  /-- An expression with a type that is asserted of it. -/
  | asserted (span : Span)
  /-- An assignment; a plain one has no other operator. -/
  | assignment (span : Span) (plain : Bool)
  /-- An operator word or sign and its operand. -/
  | unary (span : Span)
  /-- A logical operation, which coalesces or not. -/
  | logical (span : Span) (coalescing : Bool)
  /-- An import call. -/
  | importCall (span : Span)
  /-- An operand with members or calls of which one may be left out. -/
  | chain (span : Span)
  /-- Any other expression. -/
  | other (span : Span)

/-- An element of an array literal. -/
inductive Element (script : Text) where
  | hole
  | item (value : Expr script)
  | spread (span : Span) (argument : Expr script)

/-- An entry of an object literal. -/
inductive Property (script : Text) where
  | spread (span : Span) (argument : Expr script)
  | entry (span : Span) (key : Key script) (form : PropertyForm) (value : Expr script)

end

variable {script : Text}

namespace Expr

/-- The span of an expression. -/
def span : Expr script → Span
  | identifier s | member s | parenthesized s _ | array s _ | object s _ | asserted s
  | assignment s _ | unary s | logical s _ | importCall s | chain s
  | other s => s

/-- An expression without the parentheses right around it. -/
def unparenthesized : Expr script → Expr script
  | parenthesized _ inner => inner
  | e => e

end Expr

/-- The span of a property. -/
def Property.span : Property script → Span
  | spread span _ | entry span _ _ _ => span

/-- What is told of a property. -/
def Property.outline : Property script → Outline.Property
  | spread span _ => .spread span
  | entry span key form value => .entry span ⟨key.form, key.span⟩ form value.span

/-- What is told of an expression. -/
def Expr.outline : Expr script → Outline
  | parenthesized span inner => .parenthesized span inner.outline
  | object span properties => .object span (properties.map Property.outline)
  | e => .other e.span

/-- What is found out about an expression that turns out to be a pattern. -/
structure PatternCheck where
  /-- The problems that do not end reading, latest first. -/
  problems : List Diagnostic
  /-- The starts of the properties whose initialisers are in order. -/
  initialised : List Nat
  deriving DecidableEq, Repr

/-- The comma behind the last element of a literal that starts at an offset. -/
def trailingComma? (commas : List (Nat × Nat)) (start : Nat) : Option Nat :=
  (commas.find? (·.1 == start)).map (·.2)

/-- The check with one more problem. -/
def PatternCheck.report (check : PatternCheck) (problem : Problem) (offset : Nat) : PatternCheck :=
  { check with problems := ⟨problem, offset⟩ :: check.problems }

/-- Reports the comma behind a rest element. -/
def PatternCheck.restComma (check : PatternCheck) (comma? : Option Nat) : PatternCheck :=
  match comma? with
  | some offset => check.report .restComma offset
  | none => check

/-- Checks an expression that can be assigned to only if it is a name or a member. Literals between
parentheses are no patterns, and `outer` is the span of these. -/
def Expr.checkSimple (outer : Span) (check : PatternCheck) :
    Expr script → Except Diagnostic PatternCheck
  | .identifier _ | .member _ | .asserted _ => .ok check
  | .parenthesized span inner => inner.checkSimple span check
  | .array _ _ | .object _ _ => .error ⟨.assignmentTarget, outer.start⟩
  | e => .error ⟨.assignmentTarget, e.span.start⟩

/-- Reports what an object pattern must not give its rest to. -/
def Expr.checkRest (check : PatternCheck) : Expr script → PatternCheck
  | .array span _ | .object span _ => check.report .restTarget span.start
  | _ => check

mutual

/-- Checks that an expression can be assigned to: a name, a member, or an array or an object literal
of such, with values to fall back on. The commas are those that end a literal. -/
def Expr.checkPattern (commas : List (Nat × Nat)) (check : PatternCheck) :
    Expr script → Except Diagnostic PatternCheck
  | .array span elements => checkElements commas (trailingComma? commas span.start) check elements
  | .object span properties =>
    checkProperties commas (trailingComma? commas span.start) check properties
  | e => e.checkSimple e.span check

/-- Checks an expression that may carry a value to fall back on. -/
def Expr.checkElement (commas : List (Nat × Nat)) (check : PatternCheck) :
    Expr script → Except Diagnostic PatternCheck
  | .assignment span plain =>
    .ok (if plain then check else check.report .defaultOperator span.start)
  | .array span elements => checkElements commas (trailingComma? commas span.start) check elements
  | .object span properties =>
    checkProperties commas (trailingComma? commas span.start) check properties
  | e => e.checkSimple e.span check

/-- Checks the elements of an array literal; a spread one has to be the last. -/
def checkElements (commas : List (Nat × Nat)) (comma? : Option Nat) (check : PatternCheck) :
    List (Element script) → Except Diagnostic PatternCheck
  | [] => .ok check
  | .hole :: rest => checkElements commas comma? check rest
  | .item e :: rest => do
    let check ← e.checkElement commas check
    checkElements commas comma? check rest
  | .spread span e :: rest =>
    if rest.isEmpty then do
      let check ← e.checkPattern commas check
      return check.restComma comma?
    else .error ⟨.spreadNotLast, span.start⟩

/-- Checks the entries of an object literal; a spread one has to be the last. -/
def checkProperties (commas : List (Nat × Nat)) (comma? : Option Nat) (check : PatternCheck) :
    List (Property script) → Except Diagnostic PatternCheck
  | [] => .ok check
  | .entry span _ .shorthand _ :: rest =>
    checkProperties commas comma? { check with initialised := span.start :: check.initialised } rest
  | .entry _ _ _ value :: rest => do
    let check ← value.checkElement commas check
    checkProperties commas comma? check rest
  | .spread span e :: rest =>
    if rest.isEmpty then do
      let check ← e.checkPattern commas (e.checkRest check)
      return check.restComma comma?
    else .error ⟨.spreadNotLast, span.start⟩

end

end BoundTemplate.Script
