import BoundTemplate.Binding.Object
import BoundTemplate.Proofs.Template.Layout

/-!
# Bindings side by side

The parameter of a binding takes a stretch of characters of its template. Bindings are
spread between two offsets if their stretches lie there one behind the other, no two of
them touching, so that no offset belongs to two of them.
-/

namespace BoundTemplate

/-- The stretch of a source that a span takes, of characters as a whole. -/
def Source.stretch (source : Source) (span : Span) : Span :=
  ⟨source.text.floor span.start,
    max (source.text.floor span.stop) (source.text.floor span.start)⟩

namespace Source

variable {source : Source} {span : Span}

theorem start_le_stop_stretch (source : Source) (span : Span) :
    (source.stretch span).start ≤ (source.stretch span).stop :=
  Nat.le_max_right _ _

/-- The stretch of a span between two boundaries lies between them. -/
theorem stretch_bounds {a z : Nat} (ha : source.text.isBoundary a = true) (hle : a ≤ span.start)
    (hspan : span.start ≤ span.stop) (hz : span.stop ≤ z) :
    a ≤ (source.stretch span).start ∧ (source.stretch span).stop ≤ z := by
  refine ⟨Text.le_floor ha hle, Nat.max_le.2 ⟨?_, ?_⟩⟩
  · exact Nat.le_trans (Text.floor_le _ _) hz
  · exact Nat.le_trans (Text.floor_le _ _) (Nat.le_trans hspan hz)

/-- The stretch of a part is where the part stands. -/
theorem stretch_eq_of_holds {part : Text} (h : source.text.Holds span part) :
    source.stretch span = span := by
  rw [stretch, Text.floor_eq_of_isBoundary h.isBoundary_start,
    Text.floor_eq_of_isBoundary h.isBoundary_stop, Nat.max_eq_left h.start_le_stop]

end Source

namespace Binding

/-- Where the parameter of a binding lies. -/
def stretch (source : Source) (b : Binding) : Span := source.stretch b.param.range.span

/-- The parameter of a binding lies between two offsets, in front of the second, and stands where it
lies. -/
structure LiesIn (source : Source) (start stop : Nat) (b : Binding) : Prop where
  start_le : start ≤ (b.stretch source).start
  stop_lt : (b.stretch source).stop < stop
  holds : b.param.text ≠ [] → source.text.Holds b.param.range.span b.param.text

theorem LiesIn.mono {source : Source} {start stop start' stop' : Nat} {b : Binding}
    (h : b.LiesIn source start stop) (hstart : start' ≤ start) (hstop : stop ≤ stop') :
    b.LiesIn source start' stop' :=
  ⟨Nat.le_trans hstart h.start_le, Nat.lt_of_lt_of_le h.stop_lt hstop, h.holds⟩

/-- The parameters of some bindings lie between two offsets, one behind the other. -/
structure Spread (source : Source) (start stop : Nat) (bindings : List Binding) : Prop where
  lies : ∀ b ∈ bindings, b.LiesIn source start stop
  apart : bindings.Pairwise fun b b' => (b.stretch source).stop < (b'.stretch source).start

namespace Spread

variable {source : Source} {start middle stop : Nat} {bindings : List Binding}

theorem nil (source : Source) (start stop : Nat) : Spread source start stop [] :=
  ⟨by simp, .nil⟩

theorem singleton {b : Binding} (h : b.LiesIn source start stop) : Spread source start stop [b] :=
  ⟨by simpa using h, List.pairwise_singleton _ _⟩

theorem mono {start' stop' : Nat} (h : Spread source start stop bindings) (hstart : start' ≤ start)
    (hstop : stop ≤ stop') : Spread source start' stop' bindings :=
  ⟨fun b hb => (h.lies b hb).mono hstart hstop, h.apart⟩

/-- Bindings in stretches one behind the other are spread over all of these. -/
theorem flatMap {α : Type} {items : List α} {f : α → List Binding} (lower upper : α → Nat)
    (hspread : ∀ x ∈ items, Spread source (lower x) (upper x) (f x))
    (hbounds : ∀ x ∈ items, start ≤ lower x ∧ upper x ≤ stop)
    (hsorted : items.Pairwise fun x y => upper x ≤ lower y) :
    Spread source start stop (items.flatMap f) := by
  constructor
  · intro b hb
    obtain ⟨x, hx, hb⟩ := List.mem_flatMap.1 hb
    obtain ⟨hstart, hstop⟩ := hbounds x hx
    exact ((hspread x hx).lies b hb).mono hstart hstop
  · rw [List.pairwise_flatMap]
    refine ⟨fun x hx => (hspread x hx).apart, ?_⟩
    refine hsorted.imp_of_mem fun {x y} hx hy hle b hb b' hb' => ?_
    have hstop := ((hspread x hx).lies b hb).stop_lt
    have hstart := ((hspread y hy).lies b' hb').start_le
    omega

/-- Bindings in two stretches one behind the other. -/
theorem append {others : List Binding} (h : Spread source start middle bindings)
    (h' : Spread source middle stop others) (hstart : start ≤ middle) (hstop : middle ≤ stop) :
    Spread source start stop (bindings ++ others) := by
  refine ⟨fun b hb => ?_, List.pairwise_append.2 ⟨h.apart, h'.apart, fun b hb b' hb' => ?_⟩⟩
  · rcases List.mem_append.1 hb with hb | hb
    · exact (h.lies b hb).mono (Nat.le_refl _) hstop
    · exact (h'.lies b hb).mono hstart (Nat.le_refl _)
  · have hlt := (h.lies b hb).stop_lt
    have hle := (h'.lies b' hb').start_le
    omega

end Spread

/-! ### Bindings that are made -/

section

variable {source : Source} {a z : Nat}

/-- A binding with a parameter between two boundaries lies between them. -/
theorem liesIn_complete {param : Span} (owner : Nat) (name : Span) (start : Nat)
    (ha : source.text.isBoundary a = true) (hz : source.text.isBoundary z = true)
    (hstart : a ≤ param.start) (hle : param.start ≤ param.stop) (hstop : param.stop ≤ z) :
    (complete source owner name start param).LiesIn source a (z + 1) := by
  have hsize := Text.le_size_of_isBoundary hz
  have hspan : (source.range param).span = param := Source.span_range hle (by omega)
  obtain ⟨h₁, h₂⟩ := Source.stretch_bounds ha hstart hle hstop
  refine ⟨?_, ?_, fun hne => ?_⟩
  · simpa only [stretch, complete, Source.piece, hspan] using h₁
  · simpa only [stretch, complete, Source.piece, hspan, Nat.lt_succ_iff] using h₂
  · simp only [complete, Source.piece, hspan] at hne ⊢
    exact Text.holds_slice hne

/-- A binding without a parameter lies between two boundaries around the place of that. -/
theorem liesIn_lacking {place : Nat} (owner : Nat) (name : Span)
    (ha : source.text.isBoundary a = true) (hz : source.text.isBoundary z = true)
    (hstart : a ≤ place) (hstop : place ≤ z) :
    (lacking source owner name place).LiesIn source a (z + 1) := by
  have hsize := Text.le_size_of_isBoundary hz
  let span := Span.empty place
  have hle : span.start ≤ span.stop := Nat.le_refl place
  have hspan : (Range.empty (source.position place)).span = span :=
    Source.span_range hle (Nat.le_trans hstop hsize)
  obtain ⟨h₁, h₂⟩ : a ≤ (source.stretch span).start ∧ (source.stretch span).stop ≤ z :=
    Source.stretch_bounds ha hstart hle hstop
  refine ⟨?_, ?_, fun hne => absurd rfl hne⟩
  · simpa only [stretch, lacking, hspan] using h₁
  · simpa only [stretch, lacking, hspan, Nat.lt_succ_iff] using h₂

end

end Binding

end BoundTemplate
