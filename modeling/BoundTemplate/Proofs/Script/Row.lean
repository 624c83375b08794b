import BoundTemplate.Script.Lexer.Blank

/-!
# Spans in a row

The properties of an object literal stand in a row: between two of them, in front of the first and
behind the last there are only blanks and the commas that separate them.
-/

namespace BoundTemplate.Script

variable {script : Text}

/-- Spans stand one behind the other between two offsets. Two of them have a comma between them, and
one may stand behind the last; apart from that there are only blanks. -/
inductive Row (script : Text) : Nat → List Span → Nat → Prop
  | nil {start stop : Nat} (blank : Apart script start stop) : Row script start [] stop
  | last {start stop : Nat} {span : Span} (front : Apart script start span.start)
      (back : Apart script span.stop stop) : Row script start [span] stop
  | cons {start comma behind stop : Nat} {span : Span} {spans : List Span}
      (front : Apart script start span.start) (back : Apart script span.stop comma)
      (separates : script.Holds ⟨comma, behind⟩ [',']) (others : Row script behind spans stop) :
      Row script start (span :: spans) stop

/-- The byte at an offset belongs to a comma or to blanks. -/
def Separates (script : Text) (x : Nat) : Prop :=
  (∃ start stop, script.Holds ⟨start, stop⟩ [','] ∧ start ≤ x ∧ x < stop) ∨
    ∃ start stop, Apart script start stop ∧ start ≤ x ∧ x < stop

/-- What a row reaches over is in one of its spans or separates. -/
theorem Row.covers {start stop x : Nat} {spans : List Span} (h : Row script start spans stop)
    (hstart : start ≤ x) (hstop : x < stop) :
    (∃ span ∈ spans, span.start ≤ x ∧ x < span.stop) ∨ Separates script x := by
  induction h with
  | nil blank => exact .inr (.inr ⟨_, _, blank, hstart, hstop⟩)
  | @last start stop span front back =>
    by_cases hfront : x < span.start
    · exact .inr (.inr ⟨_, _, front, hstart, hfront⟩)
    by_cases hback : x < span.stop
    · exact .inl ⟨span, List.mem_singleton_self span, Nat.le_of_not_lt hfront, hback⟩
    · exact .inr (.inr ⟨_, _, back, Nat.le_of_not_lt hback, hstop⟩)
  | @cons start comma behind stop span spans front back separates others ih =>
    by_cases hfront : x < span.start
    · exact .inr (.inr ⟨_, _, front, hstart, hfront⟩)
    by_cases hback : x < span.stop
    · exact .inl ⟨span, List.mem_cons_self, Nat.le_of_not_lt hfront, hback⟩
    by_cases hcomma : x < comma
    · exact .inr (.inr ⟨_, _, back, Nat.le_of_not_lt hback, hcomma⟩)
    by_cases hbehind : x < behind
    · exact .inr (.inl ⟨_, _, separates, Nat.le_of_not_lt hcomma, hbehind⟩)
    · refine (ih (Nat.le_of_not_lt hbehind) hstop).imp_left ?_
      rintro ⟨other, hother, hx⟩
      exact ⟨other, List.mem_cons_of_mem span hother, hx⟩

end BoundTemplate.Script
