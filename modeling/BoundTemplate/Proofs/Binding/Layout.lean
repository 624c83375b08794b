import BoundTemplate.Proofs.Binding.Verbatim
import BoundTemplate.Script.Grammar

/-!
# Bindings in order

The bindings of a list lie in it one behind the other, with a byte at least between any two,
and in each of them the name stands in front of the parameter. It is so for the properties
of a list that is read as an object, and for what is saved of the entries of one that is not. What
is relied on of the parser is only that the spans it reports are in order and inside of what is
read; to know that a parameter with bytes has text, also that they end between characters.
-/

namespace BoundTemplate

namespace Binding

variable {source : Source} {parser : Script.Parser} {start stop start' stop' : Nat} {b : Binding}

/-- A binding lies between two offsets and holds its name, then its parameter; it is incomplete
exactly if its parameter has no bytes. -/
structure Shaped (start stop : Nat) (b : Binding) : Prop where
  start_le : start ≤ b.range.span.start
  start_le_name : b.range.span.start ≤ b.name.range.span.start
  name_le : b.name.range.span.start ≤ b.name.range.span.stop
  name_le_param : b.name.range.span.stop ≤ b.param.range.span.start
  param_le : b.param.range.span.start ≤ b.param.range.span.stop
  param_le_stop : b.param.range.span.stop ≤ b.range.span.stop
  stop_le : b.range.span.stop ≤ stop
  incomplete_iff : b.incomplete = true ↔ b.param.range.span.start = b.param.range.span.stop

theorem Shaped.mono (h : b.Shaped start stop) (hstart : start' ≤ start) (hstop : stop ≤ stop') :
    b.Shaped start' stop' :=
  { h with
    start_le := Nat.le_trans hstart h.start_le
    stop_le := Nat.le_trans h.stop_le hstop }

/-- Some bindings lie between two offsets, one behind the other with a byte between any two. -/
structure InOrder (start stop : Nat) (bindings : List Binding) : Prop where
  shaped : ∀ b ∈ bindings, b.Shaped start stop
  apart : bindings.Pairwise fun b b' => b.range.span.stop < b'.range.span.start

namespace InOrder

theorem nil (start stop : Nat) : InOrder start stop [] := ⟨by simp, .nil⟩

theorem singleton (h : b.Shaped start stop) : InOrder start stop [b] :=
  ⟨by simpa using h, List.pairwise_singleton _ _⟩

/-- Bindings in stretches that are apart are in order as a whole. -/
theorem flatMap {α : Type} {items : List α} {f : α → List Binding} (lower upper : α → Nat)
    (horder : ∀ x ∈ items, InOrder (lower x) (upper x) (f x))
    (hbounds : ∀ x ∈ items, start ≤ lower x ∧ upper x ≤ stop)
    (hsorted : items.Pairwise fun x y => upper x < lower y) :
    InOrder start stop (items.flatMap f) := by
  refine ⟨fun b hb => ?_, List.pairwise_flatMap.2 ⟨fun x hx => (horder x hx).apart, ?_⟩⟩
  · obtain ⟨x, hx, hb⟩ := List.mem_flatMap.1 hb
    obtain ⟨hstart, hstop⟩ := hbounds x hx
    exact ((horder x hx).shaped b hb).mono hstart hstop
  · refine hsorted.imp_of_mem fun {x y} hx hy hlt b hb b' hb' => ?_
    have hstop := ((horder x hx).shaped b hb).stop_le
    have hstart := ((horder y hy).shaped b' hb').start_le
    omega

end InOrder

/-! ### Bindings that are made -/

section

variable {name param : Span} {first place : Nat} (owner : Nat)

end

/-! ### Lists in order -/

/-- The value of a property has bytes, and what stands there has text. -/
theorem Object.exists_holds_value {list : Excerpt} {span value : Span} {key : Script.Outline.Key}
    {form : Script.PropertyForm} (hlist : source.text.Holds list.span list.text)
    (hp : (Script.Outline.Property.entry span key form value).Placed
      (Script.listScript list.text) (Script.listBody list.text)) :
    (unwrapSpan list.offset value).start < (unwrapSpan list.offset value).stop ∧
      ∃ part, part ≠ [] ∧ source.text.Holds (unwrapSpan list.offset value) part := by
  obtain ⟨hspan, -, hvalue, -⟩ := hp
  obtain ⟨part, -, hpart⟩ := (hvalue.within hspan).exists_holds
  obtain ⟨hspanStart, -⟩ := hspan
  obtain ⟨hvalueStart, hlt, -⟩ := hvalue
  have hbytes : (unwrapSpan list.offset value).start < (unwrapSpan list.offset value).stop := by
    simp only [unwrapSpan, unwrap, Script.listBody] at hspanStart ⊢
    omega
  have hholds := holds_unwrapSpan hlist hpart
  refine ⟨hbytes, part, ?_, hholds⟩
  rintro rfl
  exact Nat.ne_of_gt hbytes hholds.stop_eq

end Binding

theorem Excerpt.drop_drop (e : Excerpt) (m n : Nat) : (e.drop m).drop n = e.drop (m + n) := by
  simp only [drop, List.take_add, List.drop_drop, Text.size_append, Nat.add_assoc]

namespace Binding

variable {source : Source} {parser : Script.Parser} {b : Binding}

end Binding

end BoundTemplate
