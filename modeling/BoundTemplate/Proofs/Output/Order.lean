import BoundTemplate.Proofs.Output.Run

/-!
# Order and nesting of mappings

Mappings keep the order and the nesting in which they were written. A mapping that had
ended when another began never reaches into it, and a mapping that began and ended
while another was open stays inside of it as long as it has bytes, whatever is written
or edited in between.
-/

namespace BoundTemplate.Output

namespace Extent

/-- The offset at which an extent starts. -/
def start : Extent → Nat
  | running start => start
  | closed s => s.start

/-- An extent has ended without bytes. -/
def Vanished (x : Extent) : Prop := ∃ s, x = closed s ∧ s.start = s.stop

/-- An extent has ended in front of another, or where it starts. -/
def Precedes (a b : Extent) : Prop := ∃ s, a = closed s ∧ s.stop ≤ b.start

/-- An extent goes around another, or the other has ended without bytes. -/
inductive Encloses : Extent → Extent → Prop
  | vanished (a : Extent) {b : Extent} (h : b.Vanished) : Encloses a b
  | running {start : Nat} {b : Extent} (h : start ≤ b.start) : Encloses (running start) b
  | closed {s s' : Span} (hstart : s.start ≤ s'.start) (hstop : s'.stop ≤ s.stop) :
      Encloses (closed s) (closed s')

variable {size : Nat} {a b : Extent} {e : Edit} {empty : Bias}

/-- The start of an extent goes behind bytes that are put there, unless the extent has ended without
bytes. -/
theorem start_move (e : Edit) (empty : Bias) (h : b.Within size) :
    (b.move e empty).start = e.move .after b.start ∨
      b.Vanished ∧ (b.move e empty).start = e.move empty b.start := by
  cases b with
  | running start => exact .inl rfl
  | closed s =>
    rcases Nat.lt_or_eq_of_le h.1 with hlt | heq
    · refine .inl ?_
      simp only [move, start, Edit.moveSpan_of_lt empty hlt]
    · refine .inr ⟨⟨s, rfl, heq⟩, ?_⟩
      simp only [move, start, Edit.moveSpan_of_eq empty heq]
      rfl

/-- What has ended without bytes stays so. -/
theorem Vanished.move (h : b.Vanished) : (b.move e empty).Vanished := by
  obtain ⟨s, rfl, heq⟩ := h
  refine ⟨e.moveSpan empty s, rfl, ?_⟩
  rw [Edit.moveSpan_of_eq empty heq]
  rfl

/-- Edits keep an extent in front of another. -/
theorem Precedes.move (h : a.Precedes b) (ha : a.Within size) (hb : b.Within size) :
    (a.move e empty).Precedes (b.move e empty) := by
  obtain ⟨s, rfl, hle⟩ := h
  refine ⟨e.moveSpan empty s, rfl, ?_⟩
  rcases Nat.lt_or_eq_of_le ha.1 with hlt | heq
  · rw [Edit.moveSpan_of_lt empty hlt]
    rcases start_move e empty hb with hstart | ⟨-, hstart⟩
    all_goals
      rw [hstart]
      exact Edit.move_le_move_of_le hle (.inl rfl)
  · rw [Edit.moveSpan_of_eq empty heq]
    rw [← heq] at hle
    rcases start_move e empty hb with hstart | ⟨-, hstart⟩
    · rw [hstart]
      exact Edit.move_le_move_of_le hle (.inr (.inl rfl))
    · rw [hstart]
      exact Edit.move_le_move empty hle

/-- Edits keep an extent around another. -/
theorem Encloses.move (h : a.Encloses b) (hb : b.Within size) :
    (a.move e empty).Encloses (b.move e empty) := by
  cases h with
  | vanished _ h => exact .vanished _ h.move
  | running h =>
    rcases start_move e empty hb with hstart | ⟨hv, -⟩
    · refine .running ?_
      rw [hstart]
      exact Edit.move_le_move .after h
    · exact .vanished _ hv.move
  | @closed s s' hstart hstop =>
    rcases Nat.lt_or_eq_of_le hb.1 with hlt | heq
    · have hlt' : s.start < s.stop := by omega
      refine .closed ?_ ?_
      · rw [Edit.moveSpan_of_lt empty hlt, Edit.moveSpan_of_lt empty hlt']
        exact Edit.move_le_move .after hstart
      · rw [Edit.moveSpan_of_lt empty hlt, Edit.moveSpan_of_lt empty hlt']
        exact Edit.move_le_move .before hstop
    · exact .vanished _ (Vanished.move ⟨s', rfl, heq⟩)

@[simp] theorem start_span (stop : Nat) (x : Extent) : (x.span stop).start = x.start := by
  cases x <;> rfl

/-- Ending an extent does not change where it starts. -/
@[simp] theorem start_close (stop : Nat) (x : Extent) : (x.close stop).start = x.start := by
  cases x <;> rfl

theorem Precedes.close_left (h : a.Precedes b) (stop : Nat) : (a.close stop).Precedes b := by
  obtain ⟨s, rfl, hle⟩ := h
  exact ⟨s, rfl, hle⟩

theorem Precedes.close_right (h : a.Precedes b) (stop : Nat) : a.Precedes (b.close stop) := by
  obtain ⟨s, rfl, hle⟩ := h
  refine ⟨s, rfl, ?_⟩
  rw [start_close]
  exact hle

/-- An extent that ends with the text goes around what has ended before. -/
theorem Encloses.close_left {s : Span} (h : a.Encloses (Extent.closed s)) (hs : s.stop ≤ size) :
    (a.close size).Encloses (Extent.closed s) := by
  cases h with
  | vanished _ h => exact .vanished _ h
  | running h => exact .closed h (Nat.le_trans hs (Nat.le_max_left ..))
  | closed hstart hstop => exact .closed hstart hstop

/-- An extent may end in one that goes around it. -/
theorem Encloses.close_right (h : a.Encloses b) (stop : Nat) : a.Encloses (b.close stop) := by
  cases h with
  | vanished _ h =>
    obtain ⟨s, rfl, heq⟩ := h
    exact .vanished _ ⟨s, rfl, heq⟩
  | running h =>
    refine .running ?_
    rw [start_close]
    exact h
  | closed hstart hstop => exact .closed hstart hstop

end Extent

namespace Chunk

variable {c d : Chunk}

/-- The extent of a mapping, by its index. -/
def extent? (c : Chunk) (index : Nat) : Option Extent := c.mappings[index]?.map (·.extent)

/-- Where a mapping lies in the text, by its index; what is open goes to the end of the text. -/
def spanOf? (c : Chunk) (index : Nat) : Option Span := (c.extent? index).map (·.span c.size)

/-- A mapping is open. -/
def IsOpen (c : Chunk) (index : Nat) : Prop := ∃ start, c.extent? index = some (.running start)

/-- A mapping has ended. -/
def IsClosed (c : Chunk) (index : Nat) : Prop := ∃ s, c.extent? index = some (.closed s)

theorem extent?_eq_some_iff {index : Nat} {x : Extent} :
    c.extent? index = some x ↔ ∃ m, c.mappings[index]? = some m ∧ m.extent = x :=
  Option.map_eq_some_iff

theorem Bounded.within (h : c.Bounded) {index : Nat} {x : Extent} (hx : c.extent? index = some x) :
    x.Within c.size := by
  obtain ⟨m, hm, rfl⟩ := extent?_eq_some_iff.1 hx
  exact h m (List.mem_iff_getElem?.2 ⟨index, hm⟩)

/-- What a change does to the extents that are there: it leaves them, moves them or ends one. -/
inductive Effect where
  | keep
  | edit (e : Edit) (empty : Bias)
  | close (index : Nat)

/-- The extent of an index after a change of a text of some size. -/
def Effect.apply (size : Nat) : Effect → Nat → Extent → Extent
  | keep, _, x => x
  | edit e empty, _, x => x.move e empty
  | close index, other, x => if index = other then x.close size else x

theorem Effect.apply_close (size index other : Nat) (x : Extent) :
    (Effect.close index).apply size other x = if index = other then x.close size else x := rfl

/-- Mappings that are put behind others leave these at their indices. -/
theorem extent?_append {more : List Mapping} (heq : d.mappings = c.mappings ++ more) :
    (∀ index x, c.extent? index = some x → d.extent? index = some x) ∧
      ∀ index x, c.extent? index = none → d.extent? index = some x → ∃ m ∈ more, m.extent = x := by
  unfold extent?
  rw [heq]
  constructor
  · intro index x hx
    obtain ⟨m, hm, rfl⟩ := Option.map_eq_some_iff.1 hx
    have hlt := (List.getElem?_eq_some_iff.1 hm).1
    rw [List.getElem?_append_left hlt]
    exact hx
  · intro index x hnone hx
    have hle := List.getElem?_eq_none_iff.1 (Option.map_eq_none_iff.1 hnone)
    rw [List.getElem?_append_right hle] at hx
    obtain ⟨m, hm, rfl⟩ := Option.map_eq_some_iff.1 hx
    exact ⟨m, List.mem_of_getElem? hm, rfl⟩

/-- A change has one effect on all extents that are there; if it adds some, then it leaves these,
and the new ones start behind the text. -/
theorem Change.exists_effect (h : Change c d) : ∃ effect : Effect,
    (∀ index x, c.extent? index = some x →
      d.extent? index = some (effect.apply c.size index x)) ∧
    ∀ index x, c.extent? index = none → d.extent? index = some x →
      effect = .keep ∧ c.size ≤ x.start := by
  cases h with
  | grow size_le mappings_eq =>
    have heq : d.extent? = c.extent? := by
      unfold extent?
      rw [mappings_eq]
    rw [heq]
    refine ⟨.keep, fun index x hx => hx, fun index x hnone hx => ?_⟩
    rw [hnone] at hx
    cases hx
  | edit e empty stop_le size_eq mappings_eq =>
    have heq : ∀ index, d.extent? index = (c.extent? index).map (·.move e empty) := by
      intro index
      rw [extent?, mappings_eq, List.getElem?_map, Option.map_map, extent?, Option.map_map]
      rfl
    refine ⟨.edit e empty, fun index x hx => ?_, fun index x hnone hx => ?_⟩
    · rw [heq, hx]
      rfl
    · rw [heq, hnone] at hx
      cases hx
  | openMapping origin size_eq mappings_eq =>
    obtain ⟨hold, hnew⟩ := extent?_append mappings_eq
    refine ⟨.keep, hold, fun index x hnone hx => ⟨rfl, ?_⟩⟩
    obtain ⟨m, hm, rfl⟩ := hnew index x hnone hx
    cases List.mem_singleton.1 hm
    exact Nat.le_refl c.size
  | closeMapping closed size_eq mappings_eq =>
    have heq : ∀ index, d.extent? index =
        (c.extent? index).map ((Effect.close closed).apply c.size index) := by
      intro index
      rw [extent?, mappings_eq, List.getElem?_modify, extent?]
      rcases c.mappings[index]? with _ | m
      · rfl
      · simp only [Option.map_eq_map, Option.map_some, Effect.apply]
        split <;> rfl
    refine ⟨.close closed, fun index x hx => ?_, fun index x hnone hx => ?_⟩
    · rw [heq, hx]
      rfl
    · rw [heq, hnone] at hx
      cases hx
  | join more size_le mappings_eq complete =>
    obtain ⟨hold, hnew⟩ := extent?_append mappings_eq
    refine ⟨.keep, hold, fun index x hnone hx => ⟨rfl, ?_⟩⟩
    obtain ⟨m, hm, rfl⟩ := hnew index x hnone hx
    obtain ⟨s, hs, hle, -⟩ := complete m hm
    rw [hs]
    exact hle

/-! ### What changes keep -/

variable {size i j : Nat} {a b : Extent}

/-- No change brings an extent into one behind it. -/
theorem Effect.precedes (effect : Effect) (h : a.Precedes b) (ha : a.Within size)
    (hb : b.Within size) :
    (effect.apply size i a).Precedes (effect.apply size j b) := by
  cases effect with
  | keep => exact h
  | edit e empty => exact h.move ha hb
  | close index =>
    have hleft : (Effect.apply size (.close index) i a).Precedes b := by
      rw [apply_close]
      split
      · exact h.close_left size
      · exact h
    rw [apply_close size index j]
    split
    · exact hleft.close_right size
    · exact hleft

/-- No change brings an extent out of one around it that stays open. -/
theorem Effect.encloses_of_running (effect : Effect) (h : a.Encloses b) (hb : b.Within size)
    {start : Nat} (hopen : effect.apply size i a = .running start) :
    (effect.apply size i a).Encloses (effect.apply size j b) := by
  cases effect with
  | keep => exact h
  | edit e empty => exact h.move hb
  | close index =>
    rw [apply_close] at hopen
    split at hopen
    · cases hopen
    · next hne =>
      rw [apply_close, apply_close, if_neg hne]
      split
      · exact h.close_right size
      · exact h

/-- No change brings an extent that has ended out of one around it. -/
theorem Effect.encloses_closed (effect : Effect) {s : Span} (h : a.Encloses (.closed s))
    (hb : (Extent.closed s).Within size) :
    ∃ s', effect.apply size j (.closed s) = .closed s' ∧
      (effect.apply size i a).Encloses (.closed s') := by
  cases effect with
  | keep => exact ⟨s, rfl, h⟩
  | edit e empty => exact ⟨e.moveSpan empty s, rfl, h.move hb⟩
  | close index =>
    refine ⟨s, ?_, ?_⟩
    · rw [apply_close, Extent.close_closed, ite_self]
    · rw [apply_close]
      split
      · exact h.close_left hb.2
      · exact h

/-- What has ended does not open again. -/
theorem Effect.exists_closed (effect : Effect) (size index : Nat) (s : Span) :
    ∃ s', effect.apply size index (.closed s) = .closed s' := by
  cases effect with
  | keep => exact ⟨s, rfl⟩
  | edit e empty => exact ⟨e.moveSpan empty s, rfl⟩
  | close closed =>
    refine ⟨s, ?_⟩
    rw [apply_close, Extent.close_closed, ite_self]

/-- What is open has been so. -/
theorem Effect.exists_running (effect : Effect) {start : Nat}
    (h : effect.apply size i a = .running start) : ∃ start', a = .running start' := by
  cases a with
  | running start' => exact ⟨start', rfl⟩
  | closed s =>
    obtain ⟨s', hs'⟩ := effect.exists_closed size i s
    rw [hs'] at h
    cases h

/-- What has ended precedes all that begins later. -/
theorem Changes.precedes (h : Changes c d) (hc : c.Bounded) (hi : c.IsClosed i)
    (hj : c.extent? j = none) :
    ∃ s, d.extent? i = some (.closed s) ∧
      ∀ b, d.extent? j = some b → (Extent.closed s).Precedes b := by
  induction h with
  | refl =>
    obtain ⟨s, hs⟩ := hi
    refine ⟨s, hs, fun b hb => ?_⟩
    rw [hj] at hb
    cases hb
  | @step d e changes change ih =>
    obtain ⟨s, hs, hprecedes⟩ := ih
    have hbounded := changes.bounded hc
    obtain ⟨effect, hold, hnew⟩ := change.exists_effect
    obtain ⟨s', hs'⟩ := effect.exists_closed d.size i s
    have hi' := hold i _ hs
    rw [hs'] at hi'
    refine ⟨s', hi', fun b hb => ?_⟩
    rcases hd : d.extent? j with _ | b'
    · obtain ⟨rfl, hle⟩ := hnew j b hd hb
      cases hs'
      exact ⟨s, rfl, Nat.le_trans (hbounded.within hs).2 hle⟩
    · rw [hold j b' hd] at hb
      cases hb
      rw [← hs']
      exact effect.precedes (hprecedes b' hd) (hbounded.within hs) (hbounded.within hd)

/-- As long as a mapping is open, it goes around all that begins later. -/
theorem Changes.encloses_of_isOpen (h : Changes c d) (hc : c.Bounded) (hi : c.extent? i ≠ none)
    (hj : c.extent? j = none) :
    ∃ a, d.extent? i = some a ∧
      ∀ start b, a = .running start → d.extent? j = some b → a.Encloses b := by
  induction h with
  | refl =>
    obtain ⟨a, ha⟩ := Option.ne_none_iff_exists'.1 hi
    refine ⟨a, ha, fun start b _ hb => ?_⟩
    rw [hj] at hb
    cases hb
  | @step d e changes change ih =>
    obtain ⟨a, ha, hencloses⟩ := ih
    have hbounded := changes.bounded hc
    obtain ⟨effect, hold, hnew⟩ := change.exists_effect
    refine ⟨_, hold i a ha, fun start b hopen hb => ?_⟩
    rcases hd : d.extent? j with _ | b'
    · obtain ⟨rfl, hle⟩ := hnew j b hd hb
      have hwithin := hbounded.within ha
      cases hopen
      exact .running (Nat.le_trans hwithin hle)
    · rw [hold j b' hd] at hb
      cases hb
      obtain ⟨start', ha'⟩ := effect.exists_running hopen
      exact effect.encloses_of_running (hencloses start' b' ha' hd) (hbounded.within hd) hopen

/-- What has ended in a mapping stays in it. -/
theorem Changes.encloses (h : Changes c d) (hc : c.Bounded) {s : Span} (hi : c.extent? i = some a)
    (hj : c.extent? j = some (.closed s)) (hab : a.Encloses (.closed s)) :
    ∃ a' s', d.extent? i = some a' ∧ d.extent? j = some (.closed s') ∧
      a'.Encloses (.closed s') := by
  induction h with
  | refl => exact ⟨a, s, hi, hj, hab⟩
  | @step d e changes change ih =>
    obtain ⟨a', s', hi', hj', hab'⟩ := ih
    have hwithin := (changes.bounded hc).within hj'
    obtain ⟨effect, hold, -⟩ := change.exists_effect
    obtain ⟨s'', hs'', hab''⟩ := effect.encloses_closed (i := i) (j := j) hab' hwithin
    have hj'' := hold j _ hj'
    rw [hs''] at hj''
    exact ⟨_, s'', hold i a' hi', hj'', hab''⟩

/-- The span of an extent around another goes around its span, if that has bytes. -/
theorem containsSpan_of_encloses {s : Span} (h : a.Encloses (.closed s)) (hs : s.stop ≤ size)
    (hne : s.isEmpty = false) : (a.span size).containsSpan s = true := by
  rw [Span.containsSpan_iff]
  cases h with
  | vanished _ hv =>
    obtain ⟨s', hs', heq⟩ := hv
    cases hs'
    rw [Span.isEmpty_iff.2 heq] at hne
    cases hne
  | running hle => exact ⟨hle, Nat.le_trans hs (Nat.le_max_left ..)⟩
  | closed hstart hstop => exact ⟨hstart, hstop⟩

/-! ### Runs -/

/-- A mapping that has ended when another is not yet there ends in front of it in every later state;
and one that begins and ends while another is open lies in it in every later state in which it has
bytes. -/
theorem Run.order_and_nesting {c₀ : Chunk} (hc : c₀.Reachable) (i j : Nat)
    (hj : c₀.mappings.length ≤ j) :
    (∀ c, c₀.IsClosed i → Run c₀ c → ∀ a b, c.spanOf? i = some a → c.spanOf? j = some b →
      a.stop ≤ b.start) ∧
    ∀ c₁ c, i < c₀.mappings.length → Run c₀ c₁ → c₁.IsOpen i → c₁.IsClosed j → Run c₁ c →
      ∀ a b, c.spanOf? i = some a → c.spanOf? j = some b → b.isEmpty = false →
        a.containsSpan b = true := by
  have hbounded := hc.bounded
  have hnone : c₀.extent? j = none := by
    rw [extent?, List.getElem?_eq_none hj, Option.map_none]
  constructor
  · intro c hclosed hrun a b ha hb
    obtain ⟨s, hs, hprecedes⟩ := hrun.changes.precedes hbounded hclosed hnone
    obtain ⟨x, hx, rfl⟩ := Option.map_eq_some_iff.1 hb
    rw [spanOf?, hs] at ha
    cases ha
    obtain ⟨s', hs', hle⟩ := hprecedes x hx
    cases hs'
    rw [Extent.start_span]
    exact hle
  · intro c₁ c hi hrun hopen hclosed hrun' a b ha hb hne
    have hthere : c₀.extent? i ≠ none := by
      rw [extent?, List.getElem?_eq_getElem hi, Option.map_some]
      exact Option.some_ne_none _
    have hbounded₁ := hrun.changes.bounded hbounded
    obtain ⟨x, hx, hencloses⟩ := hrun.changes.encloses_of_isOpen hbounded hthere hnone
    obtain ⟨start, hstart⟩ := hopen
    obtain ⟨s, hs⟩ := hclosed
    have hx' : x = .running start := Option.some.inj (hx.symm.trans hstart)
    obtain ⟨x', s', hx'', hs', hencloses'⟩ :=
      hrun'.changes.encloses hbounded₁ hx hs (hencloses start _ hx' hs)
    have hwithin := (hrun'.changes.bounded hbounded₁).within hs'
    rw [spanOf?, hx''] at ha
    rw [spanOf?, hs'] at hb
    cases ha
    cases hb
    exact containsSpan_of_encloses hencloses' hwithin.2 hne

/-- One mapping is written inside of another and a third behind both, and then a character is put
into the first two. -/
theorem Run.order_and_nesting_of_insert :
    let origin : Origin := { span := ⟨0, 1⟩ }
    let outer := ({} : Chunk).openMapping origin
    let inner := ((outer.openMapping origin).append ['a', 'b']).closeMapping 1
    let edited := (((inner.closeMapping 0).openMapping origin).append ['-']).insert 1 ['x']
    (∃ a b, edited.spanOf? 1 = some a ∧ edited.spanOf? 2 = some b ∧ a.stop ≤ b.start) ∧
      ∃ a b, edited.spanOf? 0 = some a ∧ edited.spanOf? 1 = some b ∧ b.isEmpty = false ∧
        a.containsSpan b = true := by
  intro origin outer inner edited
  have houter : outer.Reachable := ⟨{}, (Run.refl _).openMapping origin⟩
  have hinner : Run outer inner := (((Run.refl outer).openMapping origin).append _).closeMapping 1
  have hedited : Run inner edited :=
    ((((Run.refl inner).closeMapping 0).openMapping origin).append _).insert 1 _
  have hreachable : inner.Reachable := by
    obtain ⟨options, hrun⟩ := houter
    exact ⟨options, hrun.trans hinner⟩
  have h₀ : edited.spanOf? 0 = some ⟨0, 3⟩ := by decide
  have h₁ : edited.spanOf? 1 = some ⟨0, 3⟩ := by decide
  have h₂ : edited.spanOf? 2 = some ⟨3, 4⟩ := by decide
  have hopen : inner.IsOpen 0 := ⟨0, by decide⟩
  have hclosed : inner.IsClosed 1 := ⟨⟨0, 2⟩, by decide⟩
  have horder := (Run.order_and_nesting hreachable 1 2 (by decide)).1 edited hclosed hedited
  have hnesting := (Run.order_and_nesting houter 0 1 (by decide)).2 inner edited (by decide) hinner
    hopen hclosed hedited
  exact ⟨⟨_, _, h₁, h₂, horder _ _ h₁ h₂⟩, _, _, h₀, h₁, by decide, hnesting _ _ h₀ h₁ (by decide)⟩

end Chunk

end BoundTemplate.Output
