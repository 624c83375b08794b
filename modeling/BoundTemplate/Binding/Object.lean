import BoundTemplate.Script.Parser
import BoundTemplate.Template.Node
import BoundTemplate.Template.Problem

/-!
# Binding lists as object literals

A binding list that is in order is what an object literal holds between its
braces. It is read as a script that puts the braces and parentheses around it,
and what the parser says of the script is moved back to the list.
-/

namespace BoundTemplate.Binding

/-- A binding with its parameter. -/
def complete (source : Source) (owner : Nat) (name : Span) (start : Nat) (param : Span) :
    Binding where
  range := source.range ⟨start, param.stop⟩
  name := source.piece name
  param := source.piece param
  incomplete := false
  owner := owner

/-- A binding without a parameter, which would stand at `place`. -/
def lacking (source : Source) (owner : Nat) (name : Span) (place : Nat) : Binding where
  range := source.range ⟨name.start, max place name.stop⟩
  name := source.piece name
  param := ⟨[], Range.empty (source.position place)⟩
  incomplete := true
  owner := owner

/-- What an entry of a list gives: a binding, or an error. -/
abbrev Outcome := Except ParseError Binding

/-- The error that an entry, or a part of it, is no binding. -/
def refuse (source : Source) (problem : Problem) (span : Span) : Outcome :=
  .error ⟨source.range span, problem⟩

namespace Object

/-- What stands in front of a list that is read as a script. -/
def opening : Text := ['(', '{']

/-- What stands behind a list that is read as a script. -/
def closing : Text := ['}', ')']

/-- Where the offset of a script lies in its list; one in front of the list counts as its start. -/
def unwrap (offset : Nat) : Nat := offset - opening.size

/-- Where the span of a script lies in the source, of a list that starts at `base`. -/
def unwrapSpan (base : Nat) (span : Span) : Span :=
  ⟨base + unwrap span.start, base + unwrap span.stop⟩

/-- Why a text is no binding list, and at which of its offsets, if one is told. -/
structure Failure where
  problem : Problem
  offset? : Option Nat
  deriving DecidableEq, Repr

/-- The failure that a parser tells of the script of a list: what it says first. -/
def Failure.ofDiagnostics : List Script.Parser.Diagnostic → Failure
  | [] => ⟨.bindingListInvalid, none⟩
  | d :: _ => ⟨.script d.message, d.offset?.map unwrap⟩

/-- The name that a key gives a binding: a name or a number itself, or the content of a string. -/
def nameSpan? (form : Script.KeyForm) (key : Span) : Option Span :=
  match form with
  | .name | .number => some key
  | .string => if 2 ≤ key.size then some ⟨key.start + 1, key.stop - 1⟩ else none
  | _ => none

/-- What an entry of an object literal gives, for a list that starts at `base`. -/
def outcome (source : Source) (owner base : Nat) : Script.Outline.Property → Outcome
  | .spread span => refuse source .spreadBinding (unwrapSpan base span)
  | .entry span key form value =>
    let keySpan := unwrapSpan base key.span
    if key.form = .computed then refuse source .computedBindingName keySpan
    else
      match form with
      | .method | .getter | .setter =>
        refuse source .unsupportedBinding (unwrapSpan base span)
      | _ =>
        match nameSpan? key.form keySpan with
        | none => refuse source .unsupportedBindingName keySpan
        | some name =>
          let param := unwrapSpan base value
          .ok (if form = .shorthand || param.isEmpty then lacking source owner name keySpan.stop
            else complete source owner name keySpan.start param)

/-- The entries of the object literal that a list is between its braces. -/
def properties (parser : Script.Parser) (t : Text) :
    Except Failure (List Script.Outline.Property) :=
  match parser.read (opening ++ t ++ closing) with
  | .error diagnostics => .error (.ofDiagnostics diagnostics)
  | .ok outline =>
    match outline.unparenthesized with
    | .object _ properties => .ok properties
    | _ => .error ⟨.bindingListExpected, some 0⟩

/-- What the entries of a list give, if the list is in order. -/
def read (parser : Script.Parser) (source : Source) (owner : Nat) (list : Excerpt) :
    Except Failure (List Outcome) :=
  (properties parser list.text).map fun ps => ps.map (outcome source owner list.offset)

end Object

end BoundTemplate.Binding
