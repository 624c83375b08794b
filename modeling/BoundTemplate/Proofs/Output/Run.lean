import BoundTemplate.Output.Compose
import BoundTemplate.Proofs.Output.Edit
import BoundTemplate.Proofs.Text.Part

/-!
# Runs of chunk operations

A run takes a chunk to another by any operations in any order. Whatever an operation
does to the extents of the mappings, it does in a few kinds of changes: the text grows at
its end, an edit moves all extents, a mapping is opened or closed, or mappings that have
ended are put behind the others. What every change preserves, every run does.
-/

namespace BoundTemplate

namespace Output

/-- An extent lies in a text of some size. -/
def Extent.Within (size : Nat) : Extent → Prop
  | running start => start ≤ size
  | closed s => s.start ≤ s.stop ∧ s.stop ≤ size

/-- A mapping that moves with an edit. -/
def Mapping.move (e : Edit) (empty : Bias) (m : Mapping) : Mapping :=
  { m with extent := m.extent.move e empty }

/-- A mapping that ends at an offset, unless it has ended before. -/
def Mapping.close (stop : Nat) (m : Mapping) : Mapping := { m with extent := m.extent.close stop }

namespace Extent

variable {size size' : Nat} {x : Extent}

theorem Within.mono (h : x.Within size) (hle : size ≤ size') : x.Within size' := by
  cases x with
  | running start => exact Nat.le_trans h hle
  | closed s => exact ⟨h.1, Nat.le_trans h.2 hle⟩

/-- An extent moves in the text with an edit of it. -/
theorem Within.move {e : Edit} (empty : Bias) (h : x.Within size) (hstop : e.stop ≤ size) :
    (x.move e empty).Within (size - e.removed + e.inserted) := by
  cases x with
  | running start => exact Edit.move_le .after hstop h
  | closed s =>
    exact ⟨Edit.start_moveSpan_le_stop empty h.1, Edit.stop_moveSpan_le empty hstop h.1 h.2⟩

/-- An extent that ends with the text lies in it. -/
theorem Within.close (h : x.Within size) : (x.close size).Within size := by
  cases x with
  | running start => exact ⟨Nat.le_max_right .., Nat.max_le.2 ⟨Nat.le_refl _, h⟩⟩
  | closed s => exact h

end Extent

namespace Chunk

/-! ### Runs -/

/-- The chunk to which some operations take a chunk, in any order. -/
inductive Run : Chunk → Chunk → Prop
  | refl (c : Chunk) : Run c c
  | append {c d : Chunk} (h : Run c d) (t : Text) : Run c (d.append t)
  | openMapping {c d : Chunk} (h : Run c d) (origin : Origin) : Run c (d.openMapping origin)
  | closeMapping {c d : Chunk} (h : Run c d) (index : Nat) : Run c (d.closeMapping index)
  | insert {c d : Chunk} (h : Run c d) (offset : Nat) (t : Text) : Run c (d.insert offset t)
  | update {c d : Chunk} (h : Run c d) (a b : Nat) (t : Text) : Run c (d.update a b t)
  /-- Adds a chunk that is written by operations of its own. -/
  | add {c d other : Chunk} {options : ChunkOptions} (h : Run c d)
      (written : Run { options } other) : Run c (d.add other)
  | indent {c d : Chunk} (h : Run c d) (levels : Nat) : Run c (d.indent levels)
  | dedent {c d : Chunk} (h : Run c d) (levels : Nat) : Run c (d.dedent levels)
  | mark {c d : Chunk} (h : Run c d) (name : Text) : Run c (d.mark name)
  | markTemplate {c d : Chunk} (h : Run c d) (name : Text) (offset : Nat) :
      Run c (d.markTemplate name offset)
  /-- Records what some operations write under a name. -/
  | locating {c d : Chunk} (name : Text) (write : Chunk → Id Chunk) (h : Run c d)
      (written : Run d (write d)) : Run c (d.locating name write)

/-- A chunk that is written from the start. -/
def Reachable (c : Chunk) : Prop := ∃ options : ChunkOptions, Run { options } c

namespace Run

variable {c d e : Chunk}

/-- Operations go on behind others. -/
theorem trans (h : Run c d) (h' : Run d e) : Run c e := by
  induction h' with
  | refl => exact h
  | append _ t ih => exact (ih h).append t
  | openMapping _ origin ih => exact (ih h).openMapping origin
  | closeMapping _ index ih => exact (ih h).closeMapping index
  | insert _ offset t ih => exact (ih h).insert offset t
  | update _ a b t ih => exact (ih h).update a b t
  | add _ written ih _ => exact (ih h).add written
  | indent _ levels ih => exact (ih h).indent levels
  | dedent _ levels ih => exact (ih h).dedent levels
  | mark _ name ih => exact (ih h).mark name
  | markTemplate _ name offset ih => exact (ih h).markTemplate name offset
  | locating name write _ written ih _ => exact .locating name write (ih h) written

/-- Removing text is an operation. -/
theorem remove (h : Run c d) (a b : Nat) : Run c (d.remove a b) := h.update a b []

/-- Writing a mapped text takes three operations. -/
theorem appendMapped (h : Run c d) (t : Text) (origin : Origin) :
    Run c (d.appendMapped t origin) :=
  ((h.openMapping origin).append t).closeMapping _

/-- What is written by operations may be mapped as a whole. -/
theorem mapped (h : Run c d) (origin : Origin) (write : Chunk → Id Chunk)
    (written : Run (d.openMapping origin) (write (d.openMapping origin))) :
    Run c (d.mapped origin write) :=
  ((h.openMapping origin).trans written).closeMapping _

/-- Adding chunks in order is a run. -/
theorem addAll (h : Run c d) (others : List Chunk) (written : ∀ other ∈ others, Reachable other) :
    Run c (d.addAll others) := by
  induction others generalizing d with
  | nil => exact h
  | cons other others ih =>
    obtain ⟨options, hother⟩ := written other List.mem_cons_self
    exact ih (h.add hother) fun other h => written other (List.mem_cons_of_mem _ h)

end Run

/-! ### Changes -/

/-- The ways in which an operation changes the size of a text and the extents of its mappings. -/
inductive Change (c d : Chunk) : Prop
  /-- The text grows at its end, or stays as it is. -/
  | grow (size_le : c.size ≤ d.size) (mappings_eq : d.mappings = c.mappings)
  | edit (e : Edit) (empty : Bias) (stop_le : e.stop ≤ c.size)
    (size_eq : d.size = c.size - e.removed + e.inserted)
    (mappings_eq : d.mappings = c.mappings.map (Mapping.move e empty))
  | openMapping (origin : Origin) (size_eq : d.size = c.size)
    (mappings_eq : d.mappings = c.mappings ++ [⟨origin, .running c.size⟩])
  | closeMapping (index : Nat) (size_eq : d.size = c.size)
    (mappings_eq : d.mappings = c.mappings.modify index (Mapping.close c.size))
  /-- Mappings that have ended in a text are put at the end with it. -/
  | join (more : List Mapping) (size_le : c.size ≤ d.size)
    (mappings_eq : d.mappings = c.mappings ++ more)
    (complete : ∀ m ∈ more, ∃ s, m.extent = .closed s ∧ c.size ≤ s.start ∧ s.start ≤ s.stop ∧
      s.stop ≤ d.size)

/-- Changes one after the other. -/
inductive Changes (c : Chunk) : Chunk → Prop
  | refl : Changes c c
  | step {d e : Chunk} (h : Changes c d) (change : Change d e) : Changes c e

/-- All extents lie in the text. -/
def Bounded (c : Chunk) : Prop := ∀ m ∈ c.mappings, m.extent.Within c.size

namespace Changes

variable {c d e : Chunk}

theorem single (h : Change c d) : Changes c d := .step .refl h

theorem trans (h : Changes c d) (h' : Changes d e) : Changes c e := by
  induction h' with
  | refl => exact h
  | step _ change ih => exact .step ih change

end Changes

/-- Every change keeps the extents in the text. -/
theorem Change.bounded {c d : Chunk} (h : Change c d) (hc : c.Bounded) : d.Bounded := by
  intro m hm
  cases h with
  | grow size_le mappings_eq =>
    rw [mappings_eq] at hm
    exact (hc m hm).mono size_le
  | edit e empty stop_le size_eq mappings_eq =>
    rw [mappings_eq] at hm
    obtain ⟨m', hm', rfl⟩ := List.mem_map.1 hm
    rw [size_eq]
    exact (hc m' hm').move empty stop_le
  | openMapping origin size_eq mappings_eq =>
    rw [mappings_eq] at hm
    rw [size_eq]
    rcases List.mem_append.1 hm with hm | hm
    · exact hc m hm
    · cases List.mem_singleton.1 hm
      exact Nat.le_refl c.size
  | closeMapping index size_eq mappings_eq =>
    rw [mappings_eq] at hm
    rw [size_eq]
    obtain ⟨k, hk⟩ := List.mem_iff_getElem?.1 hm
    rw [List.getElem?_modify] at hk
    obtain ⟨m', hm', rfl⟩ := Option.map_eq_some_iff.1 hk
    have hwithin := hc m' (List.mem_iff_getElem?.2 ⟨k, hm'⟩)
    split
    · exact hwithin.close
    · exact hwithin
  | join more size_le mappings_eq complete =>
    rw [mappings_eq] at hm
    rcases List.mem_append.1 hm with hm | hm
    · exact (hc m hm).mono size_le
    · obtain ⟨s, hs, -, hle, hstop⟩ := complete m hm
      rw [hs]
      exact ⟨hle, hstop⟩

/-- Every run of changes keeps the extents in the text. -/
theorem Changes.bounded {c d : Chunk} (h : Changes c d) (hc : c.Bounded) : d.Bounded := by
  induction h with
  | refl => exact hc
  | step _ change ih => exact change.bounded ih

/-! ### What operations change -/

@[simp] theorem text_move (e : Edit) (c : Chunk) : (c.move e).text = c.text := by
  unfold move
  split <;> rfl

theorem text_splice (start stop : Nat) (t : Text) (c : Chunk) :
    (c.splice start stop t).text = c.text.takeBytes start ++ t ++ c.text.dropBytes stop :=
  text_move _ _

/-- Replacing text between two places changes the size by the difference. -/
theorem size_splice {start stop : Nat} (t : Text) {c : Chunk}
    (hstart : c.text.isBoundary start = true) (hstop : c.text.isBoundary stop = true)
    (le : start ≤ stop) : (c.splice start stop t).size = c.size - (stop - start) + t.size := by
  have hle := Text.le_size_of_isBoundary hstop
  rw [size, text_splice, Text.size_append, Text.size_append, Text.size_takeBytes hstart,
    Text.size_dropBytes hstop, size]
  omega

/-- A place in front of a replaced text stays one. -/
theorem isBoundary_splice {start stop place : Nat} (t : Text) {c : Chunk}
    (h : c.text.isBoundary place = true) (le : place ≤ start) :
    (c.splice start stop t).text.isBoundary place = true := by
  obtain ⟨front, back, hc, rfl⟩ := Text.isBoundary_iff.1 h
  rw [text_splice, hc, Text.takeBytes_append_of_le back le]
  refine Text.isBoundary_iff.2 ⟨front, Text.takeBytes (start - front.size) back ++ t ++
    Text.dropBytes stop (front ++ back), ?_, rfl⟩
  simp only [List.append_assoc]

/-- Replacing text between two places is a change. -/
theorem change_splice {start stop : Nat} (t : Text) {c : Chunk}
    (hstart : c.text.isBoundary start = true) (hstop : c.text.isBoundary stop = true)
    (le : start ≤ stop) : Change c (c.splice start stop t) := by
  have hsize := size_splice t hstart hstop le
  have hle : stop ≤ c.size := Text.le_size_of_isBoundary hstop
  by_cases he : (Edit.mk start (stop - start) t.size).isEmpty = true
  · refine .grow ?_ ?_
    · simp only [Edit.isEmpty, Bool.and_eq_true, beq_iff_eq] at he
      omega
    · rw [splice, move, if_pos he]
  · let e : Edit := ⟨start, stop - start, t.size⟩
    let spliced : Chunk := { c with text := c.text.takeBytes start ++ t ++ c.text.dropBytes stop }
    refine .edit e (spliced.emptyBias e) ?_ hsize ?_
    · simp only [Edit.stop, e]
      omega
    · rw [splice, move, if_neg he]
      rfl

/-- The indentation of a line is put at the end. -/
theorem changes_writeIndent (c : Chunk) : Changes c c.writeIndent := by
  have hflags : Change c { c with atLineStart := false, carried := 0 } :=
    .grow (Nat.le_refl _) rfl
  have hend := Text.isBoundary_size c.text
  exact .step (.single hflags) (change_splice _ hend hend (Nat.le_refl _))

/-- Text that is put at the end makes a chunk grow. -/
theorem changes_writeLine (c : Chunk) (line : Text) : Changes c (c.writeLine line) := by
  have hwrite : ∀ d : Chunk, Change d { d with text := d.text ++ line } := by
    intro d
    refine .grow ?_ rfl
    simp only [size, Text.size_append]
    omega
  unfold writeLine
  split
  · exact .refl
  · dsimp only
    split
    · exact .step (changes_writeIndent c) (hwrite _)
    · exact .single (hwrite c)

theorem change_breakLine (c : Chunk) : Change c c.breakLine := by
  refine .grow ?_ rfl
  simp only [size, breakLine, Text.size_append]
  omega

/-- What every part of a line and every line break keep is kept by writing a text. -/
theorem append_induction {p : Chunk → Prop} {c : Chunk} (t : Text) (h : p c)
    (hline : ∀ d line, p d → p (d.writeLine line)) (hbreak : ∀ d, p d → p d.breakLine) :
    p (c.append t) := by
  unfold append
  split
  · exact h
  · next first others heq =>
    clear heq
    have hfirst := hline c first h
    generalize c.writeLine first = d at hfirst
    induction others generalizing d with
    | nil => exact hfirst
    | cons line others ih => exact ih _ (hline _ line (hbreak d hfirst))

theorem changes_append (c : Chunk) (t : Text) : Changes c (c.append t) :=
  append_induction t .refl (fun d line h => h.trans (changes_writeLine d line))
    fun d h => h.step (change_breakLine d)

/-- Places to which offsets are moved back lie between characters. -/
theorem isBoundary_clamp (c : Chunk) (offset : Nat) :
    c.text.isBoundary (c.clamp offset) = true :=
  Text.isBoundary_floor c.text offset

theorem change_insert (c : Chunk) (offset : Nat) (t : Text) : Change c (c.insert offset t) :=
  change_splice t (c.isBoundary_clamp offset) (c.isBoundary_clamp offset) (Nat.le_refl _)

theorem change_update (c : Chunk) (a b : Nat) (t : Text) : Change c (c.update a b t) := by
  have ha := c.isBoundary_clamp a
  have hb := c.isBoundary_clamp b
  exact change_splice t (Text.isBoundary_min ha hb) (Text.isBoundary_max ha hb) (by omega)

/-! ### Composition -/

/-- The places at which lines with characters start lie between characters, in the order of the
text. -/
theorem contentLineStarts_spec (front t : Text) :
    (∀ start ∈ contentLineStarts front.size t, front.size ≤ start ∧
      Text.isBoundary (front ++ t) start = true) ∧
      (contentLineStarts front.size t).Pairwise (· ≤ ·) := by
  induction t generalizing front with
  | nil => exact ⟨by simp [contentLineStarts], .nil⟩
  | cons c t ih =>
    obtain ⟨hstarts, hsorted⟩ := ih (front ++ [c])
    have hsize : Text.size (front ++ [c]) = front.size + c.utf8Size := by
      rw [Text.size_append, Text.size_cons, Text.size_nil, Nat.add_zero]
    rw [List.append_assoc, List.singleton_append, hsize] at hstarts
    rw [hsize] at hsorted
    have hrest : ∀ start ∈ contentLineStarts (front.size + c.utf8Size) t,
        front.size ≤ start ∧ Text.isBoundary (front ++ c :: t) start = true := by
      intro start hs
      obtain ⟨hle, hb⟩ := hstarts start hs
      exact ⟨by omega, hb⟩
    unfold contentLineStarts
    dsimp only
    split
    · refine ⟨fun start hs => ?_, .cons (fun start hs => (hstarts start hs).1) hsorted⟩
      rcases List.mem_cons.1 hs with rfl | hs
      · refine ⟨Nat.le_add_right .., Text.isBoundary_iff.2 ⟨front ++ [c], t, ?_, hsize⟩⟩
        rw [List.append_assoc, List.singleton_append]
      · exact hrest start hs
    · exact ⟨hrest, hsorted⟩

/-- All mappings have ended. -/
def AllClosed (c : Chunk) : Prop := ∀ m ∈ c.mappings, ∃ s, m.extent = .closed s

/-- Moving mappings does not open them. -/
theorem AllClosed.splice {c : Chunk} (h : c.AllClosed) (start stop : Nat) (t : Text) :
    (c.splice start stop t).AllClosed := by
  unfold Chunk.splice Chunk.move
  split
  · exact h
  · intro m hm
    obtain ⟨m', hm', rfl⟩ := List.mem_map.1 hm
    obtain ⟨s, hs⟩ := h m' hm'
    simp only [hs]
    exact ⟨_, rfl⟩

/-- What every text put between two characters keeps is kept by putting one at some places, the last
first. The places in front of all of these stay places between characters. -/
theorem foldr_splice_induction {p : Chunk → Prop} {c : Chunk} (t : Text) {places : List Nat}
    (hplaces : ∀ place ∈ places, c.text.isBoundary place = true)
    (hsorted : places.Pairwise (· ≤ ·)) (h : p c)
    (hsplice : ∀ d place, d.text.isBoundary place = true → p d → p (d.splice place place t)) :
    let d := places.foldr (fun place d => d.splice place place t) c
    p d ∧ ∀ place, c.text.isBoundary place = true → (∀ other ∈ places, place ≤ other) →
      d.text.isBoundary place = true := by
  induction places with
  | nil => exact ⟨h, fun place h _ => h⟩
  | cons first others ih =>
    obtain ⟨hfirst, hothers⟩ := List.pairwise_cons.1 hsorted
    obtain ⟨hd, hfront⟩ := ih (fun place h => hplaces place (List.mem_cons_of_mem _ h)) hothers
    have hb := hfront first (hplaces first List.mem_cons_self) hfirst
    refine ⟨hsplice _ first hb hd, fun place h hle => ?_⟩
    have hplace := hfront place h fun other ho => hle other (List.mem_cons_of_mem _ ho)
    exact isBoundary_splice t hplace (hle first List.mem_cons_self)

/-- What every text put between two characters keeps is kept by indenting the lines of a chunk. -/
theorem indentLines_induction {p : Chunk → Prop} {c : Chunk} (indentation : Text) (h : p c)
    (hsplice : ∀ d place, d.text.isBoundary place = true → p d →
      p (d.splice place place indentation)) : p (c.indentLines indentation) := by
  obtain ⟨hstarts, hsorted⟩ := contentLineStarts_spec [] c.text
  exact (foldr_splice_induction indentation (fun start hs => (hstarts start hs).2) hsorted h
    hsplice).1

/-- Ending all mappings keeps them in the text. -/
theorem Bounded.closeAll {c : Chunk} (h : c.Bounded) : c.closeAll.Bounded := by
  intro m hm
  obtain ⟨m', hm', rfl⟩ := List.mem_map.1 hm
  exact (h m' hm').close

theorem allClosed_closeAll (c : Chunk) : c.closeAll.AllClosed := by
  intro m hm
  obtain ⟨m', -, rfl⟩ := List.mem_map.1 hm
  exact ⟨_, rfl⟩

/-- A chunk whose mappings have ended in its text is put at the end of another by a change. -/
theorem change_join (c : Chunk) {other : Chunk} (hbounded : other.Bounded)
    (hclosed : other.AllClosed) : Change c (c.join other) := by
  have hsize : (c.join other).size = c.size + other.size := Text.size_append ..
  refine .join _ (by omega) rfl fun m hm => ?_
  obtain ⟨m', hm', rfl⟩ := List.mem_map.1 hm
  obtain ⟨s, hs⟩ := hclosed m' hm'
  have hwithin := hbounded m' hm'
  rw [hs] at hwithin
  refine ⟨s.shift c.size, by simp only [hs, Extent.shift], ?_⟩
  obtain ⟨hle, hstop⟩ := hwithin
  simp only [Span.start_shift, Span.stop_shift]
  omega

/-- Adding a chunk whose extents lie in its text is a run of changes. -/
theorem changes_add {other : Chunk} (c : Chunk) (h : other.Bounded) : Changes c (c.add other) := by
  let sub := other.closeAll.indentLines (c.indentText c.indentation)
  have hchanges : Changes other.closeAll sub := indentLines_induction _ .refl
    fun d place hb h => h.step (change_splice _ hb hb (Nat.le_refl _))
  have hallClosed : sub.AllClosed := indentLines_induction _ (allClosed_closeAll other)
    fun d place _ h => h.splice place place _
  have hbounded := hchanges.bounded h.closeAll
  have hinherit : ∀ d : Chunk, ∀ sub : Chunk, Change d (d.inheritLine sub) := by
    intro d sub
    unfold inheritLine
    split
    · exact .grow (Nat.le_refl _) rfl
    · exact .grow (Nat.le_refl _) rfl
  unfold add
  dsimp only
  split
  · exact ((changes_writeIndent c).step (change_join _ hbounded hallClosed)).step (hinherit _ _)
  · exact (Changes.single (change_join c hbounded hallClosed)).step (hinherit _ _)

/-- A chunk without text has no extents outside of it. -/
theorem bounded_empty (options : ChunkOptions) : Bounded { options } := by
  intro m hm
  cases hm

/-- Every run of operations is one of changes. -/
theorem Run.changes {c d : Chunk} (h : Run c d) : Changes c d := by
  induction h with
  | refl => exact .refl
  | append _ t ih => exact ih.trans (changes_append _ t)
  | openMapping _ origin ih => exact ih.step (.openMapping origin rfl rfl)
  | closeMapping _ index ih => exact ih.step (.closeMapping index rfl rfl)
  | insert _ offset t ih => exact ih.step (change_insert _ offset t)
  | update _ a b t ih => exact ih.step (change_update _ a b t)
  | add _ _ ih written =>
    exact ih.trans (changes_add _ (written.bounded (bounded_empty _)))
  | indent _ _ ih | dedent _ _ ih | mark _ _ ih | markTemplate _ _ _ ih =>
    exact ih.step (.grow (Nat.le_refl _) rfl)
  | locating _ _ _ _ ih written => exact (ih.trans written).step (.grow (Nat.le_refl _) rfl)

/-- The extents of what is written from the start lie in its text. -/
theorem Reachable.bounded {c : Chunk} (h : c.Reachable) : c.Bounded := by
  obtain ⟨options, hrun⟩ := h
  exact hrun.changes.bounded (bounded_empty options)

end Chunk

end Output

end BoundTemplate
