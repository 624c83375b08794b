import BoundTemplate.Binding.Object
import BoundTemplate.Proofs.Script.Row
import BoundTemplate.Proofs.Text.Part
import BoundTemplate.Script.Token
import Mathlib.Data.List.Infix

/-!
# What is relied on of a parser

A parser is given, and how it reads is its own affair. What is relied on of it is said here, one law
at a time, and every result about binding lists names the laws that it rests on. Where spans lie is
said of the parts of one text, since only these are read of it. The other laws are about how keys
and object literals are written, whatever the text.
-/

namespace BoundTemplate

namespace Script

/-- A span in another one, with its ends between characters of a text. -/
def Within (t : Text) (outer span : Span) : Prop :=
  outer.start ≤ span.start ∧ span.start ≤ span.stop ∧ span.stop ≤ outer.stop ∧
    t.isBoundary span.start = true ∧ t.isBoundary span.stop = true

/-- A span of characters of a text, at least one, in another span. -/
def Inside (t : Text) (outer span : Span) : Prop :=
  outer.start ≤ span.start ∧ span.start < span.stop ∧ span.stop ≤ outer.stop ∧
    t.isBoundary span.start = true ∧ t.isBoundary span.stop = true

/-- What lies in a part of a span lies in the span. -/
theorem Inside.within {t : Text} {body outer span : Span} (h : Inside t outer span)
    (houter : Inside t body outer) : Within t body span := by
  obtain ⟨hstart, hlt, hstop, hb, hb'⟩ := h
  obtain ⟨hstart', -, hstop', -⟩ := houter
  exact ⟨Nat.le_trans hstart' hstart, Nat.le_of_lt hlt, Nat.le_trans hstop hstop', hb, hb'⟩

/-- The text of a list that is read as a script. -/
abbrev listScript (list : Text) : Text := Binding.Object.opening ++ list ++ Binding.Object.closing

/-- Where the script of a list has the list. -/
def listBody (list : Text) : Span :=
  ⟨Binding.Object.opening.size, Binding.Object.opening.size + list.size⟩

namespace Outline

/-- The properties of an expression that is an object literal, in parentheses or not. -/
def properties (e : Outline) : List Property :=
  match e.unparenthesized with
  | object _ ps => ps
  | _ => []

namespace Property

/-- The spans that are reported of a property: its own, and those of its key and its value. -/
def spans : Property → List Span
  | spread span => [span]
  | entry span key _ value => [span, key.span, value]

/-- A property lies in the body of an object literal, its key and its value in the property, and a
value behind a colon at least one byte behind the key. -/
def Placed (t : Text) (body : Span) : Property → Prop
  | spread span => Inside t body span
  | entry span key form value =>
    Inside t body span ∧ Inside t span key.span ∧ Inside t span value ∧
      (form = .value → key.span.stop < value.start)

theorem Placed.inside {t : Text} {body : Span} {p : Property} (h : p.Placed t body) :
    Inside t body p.span := by
  cases p with
  | spread span => exact h
  | entry span key form value => exact h.1

end Property

/-- An object literal is written between braces, with its properties in a row. It stands behind
blanks at the start of a text, or between parentheses that do. -/
structure Spelled (t : Text) (e : Outline) (span : Span) (ps : List Property) : Prop where
  behind : Apart t 0 e.span.start
  opens : t.Holds ⟨span.start, span.start + 1⟩ ['{']
  closes : ∃ place, Row t (span.start + 1) (ps.map Property.span) place ∧
    t.Holds ⟨place, span.stop⟩ ['}']
  parentheses : ∀ outer, e = .parenthesized outer (.object span ps) →
    t.Holds ⟨outer.start, outer.start + 1⟩ ['('] ∧ Apart t (outer.start + 1) span.start ∧
      ∃ place, Apart t span.stop place ∧ t.Holds ⟨place, outer.stop⟩ [')']

end Outline

namespace Parser

variable (parser : Parser)

/-! ### Where spans lie -/

/-- The properties that are reported of a list lie in it, one at least a byte behind the other. -/
def ListPlaced (list : Text) : Prop :=
  ∀ e, parser.read (listScript list) = .ok e →
    (∀ p ∈ e.properties, p.Placed (listScript list) (listBody list)) ∧
      e.properties.Pairwise fun p q => p.span.stop < q.span.start

/-- The expression that is read from a text lies in it and has bytes. -/
def ExpressionPlaced (t : Text) : Prop :=
  ∀ e, parser.read t = .ok e → e.span.start < e.span.stop ∧ e.span.stop ≤ t.size

/-- What is reported of the parts of a text is in its place. -/
def Placed (t : Text) : Prop :=
  ∀ part, part <:+: t → parser.ListPlaced part ∧ parser.ExpressionPlaced part

/-- The spans that are reported of the properties of a list lie in the list. -/
def ListReported (list : Text) : Prop :=
  ∀ e, parser.read (listScript list) = .ok e →
    ∀ p ∈ e.properties, ∀ span ∈ p.spans, Within (listScript list) (listBody list) span

/-- The span that is reported of an expression lies in its text. -/
def ExpressionReported (t : Text) : Prop :=
  ∀ e, parser.read t = .ok e → Within t ⟨0, t.size⟩ e.span

/-- The spans that are reported of the parts of a text lie in these. -/
def Reports (t : Text) : Prop :=
  ∀ part, part <:+: t → parser.ListReported part ∧ parser.ExpressionReported part

/-! ### How keys and object literals are written -/

/-- The span of a key that is a string has the quotes of the string. -/
def QuotesKeys : Prop :=
  ∀ list e, parser.read (listScript list) = .ok e →
    ∀ span key form value, .entry span key form value ∈ e.properties →
      key.form = .string → Quoted (listScript list) key.span

/-- A string does not stand for its own value. -/
def NamesShorthands : Prop :=
  ∀ list e, parser.read (listScript list) = .ok e →
    ∀ span key value, .entry span key .shorthand value ∈ e.properties → key.form ≠ .string

/-- Between braces that have nothing between them there are no properties. -/
def ReadsNothing : Prop := ∀ e, parser.read (listScript []) = .ok e → e.properties = []

/-- An object literal is written as one. -/
def ReadsObjects : Prop :=
  ∀ list e span ps, parser.read (listScript list) = .ok e → e.unparenthesized = .object span ps →
    e.Spelled (listScript list) span ps

variable {parser}

theorem Placed.part {t part : Text} (h : parser.Placed t) (hpart : part <:+: t) :
    parser.Placed part :=
  fun part' hpart' => h part' (hpart'.trans hpart)

theorem Reports.part {t part : Text} (h : parser.Reports t) (hpart : part <:+: t) :
    parser.Reports part :=
  fun part' hpart' => h part' (hpart'.trans hpart)

end Parser

/-! ### Testing the laws -/

/-- What is said of what a reader gives, if it gives something, can be tested. -/
instance decidableForallOk {ε α : Type} {P : α → Prop} [DecidablePred P] :
    (r : Except ε α) → Decidable (∀ a, r = .ok a → P a)
  | .ok a => decidable_of_iff (P a) ⟨fun h _ ha => Except.ok.inj ha ▸ h, fun h => h a rfl⟩
  | .error _ => isTrue (by rintro a ⟨⟩)

instance (t : Text) (outer span : Span) : Decidable (Within t outer span) :=
  inferInstanceAs (Decidable (_ ∧ _))

instance (t : Text) (outer span : Span) : Decidable (Inside t outer span) :=
  inferInstanceAs (Decidable (_ ∧ _))

instance (t : Text) (body : Span) (p : Outline.Property) : Decidable (p.Placed t body) :=
  match p with
  | .spread _ => inferInstanceAs (Decidable (Inside _ _ _))
  | .entry _ _ _ _ => inferInstanceAs (Decidable (_ ∧ _))

/-- The parts of a text are the beginnings of its ends, so what is said of all parts can be tested.
-/
theorem forall_infix_iff {P : Text → Prop} {t : Text} :
    (∀ part, part <:+: t → P part) ↔ ∀ back ∈ t.tails, ∀ part ∈ back.inits, P part := by
  constructor
  · intro h back hback part hpart
    refine h part ?_
    exact ((List.mem_inits _ _).1 hpart).isInfix.trans ((List.mem_tails _ _).1 hback).isInfix
  · intro h part hpart
    obtain ⟨back, hbegin, hsuffix⟩ := List.infix_iff_prefix_suffix.1 hpart
    exact h back ((List.mem_tails _ _).2 hsuffix) part ((List.mem_inits _ _).2 hbegin)

namespace Parser

variable (parser : Parser)

instance (list : Text) : Decidable (parser.ListPlaced list) :=
  inferInstanceAs (Decidable (∀ _, _ → _))

instance (t : Text) : Decidable (parser.ExpressionPlaced t) :=
  inferInstanceAs (Decidable (∀ _, _ → _))

instance (list : Text) : Decidable (parser.ListReported list) :=
  inferInstanceAs (Decidable (∀ _, _ → _))

instance (t : Text) : Decidable (parser.ExpressionReported t) :=
  inferInstanceAs (Decidable (∀ _, _ → _))

instance : Decidable parser.ReadsNothing := inferInstanceAs (Decidable (∀ _, _ → _))

instance (t : Text) : Decidable (parser.Placed t) := decidable_of_iff _ forall_infix_iff.symm

instance (t : Text) : Decidable (parser.Reports t) := decidable_of_iff _ forall_infix_iff.symm

end Parser

end Script

namespace Binding

variable {parser : Script.Parser}

/-- An accepted list has been read as an object literal. -/
theorem Object.exists_of_properties {list : Text} {ps : List Script.Outline.Property}
    (h : properties parser list = .ok ps) :
    ∃ e span, parser.read (Script.listScript list) = .ok e ∧
      e.unparenthesized = .object span ps ∧ e.properties = ps := by
  unfold properties at h
  split at h
  · cases h
  · next e he =>
    split at h
    · next span _ hobject =>
      cases h
      exact ⟨e, span, he, hobject, by rw [Script.Outline.properties, hobject]⟩
    · cases h

end Binding

end BoundTemplate
