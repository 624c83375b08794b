import BoundTemplate.Proofs.Output.Line
import BoundTemplate.Proofs.Output.Writing

/-!
# Where indentation goes

Indentation belongs at the start of a line, so a write can check that a line feed stands in
front of every place at which it puts one. Such a write goes through wherever a chunk that
stands at the start of a line ends with a line feed. Writing, adding and all that moves no
text keep it so. An edit that reaches the end of the text need not, and the mark of a line
start outlives it.
-/

namespace BoundTemplate.Output

namespace Chunk

variable {c d other : Chunk} {options : ChunkOptions}

/-! ### Checked writes -/

/-- Puts an indentation at a place, if a line feed stands in front of it. -/
def indentAt? (place : Nat) (indentation : Text) (c : Chunk) : Option Chunk :=
  if endsLine (c.text.takeBytes place) then some (c.splice place place indentation) else none

/-- Writes the indentation of the line on which the text ends, if it starts there. -/
def writeIndent? (c : Chunk) : Option Chunk :=
  { c with atLineStart := false, carried := 0 }.indentAt? c.size
    (c.indentText (c.indentation + c.carried))

/-- Writes a part of a line, if indentation goes to a line start. -/
def writeLine? (c : Chunk) (line : Text) : Option Chunk :=
  if line.isEmpty then some c
  else do
    let c ← if c.atLineStart then c.writeIndent? else some c
    return { c with text := c.text ++ line }

/-- Writes a text, if all indentation goes to line starts. -/
def append? (t : Text) (c : Chunk) : Option Chunk :=
  match linesOf t with
  | [] => some c
  | first :: others => do
    others.foldlM (fun c line => c.breakLine.writeLine? line) (← c.writeLine? first)

/-- Puts an indentation in front of every line with characters but the first, if they start
there. -/
def indentLines? (indentation : Text) (c : Chunk) : Option Chunk :=
  (contentLineStarts 0 c.text).foldrM (fun start c => c.indentAt? start indentation) c

/-- Adds a copy of another chunk at the end of the text, if all indentation goes to line starts. -/
def add? (c other : Chunk) : Option Chunk := do
  let sub ← other.closeAll.indentLines? (c.indentText c.indentation)
  let c ← if c.atLineStart && startsWithContent sub.text then c.writeIndent? else some c
  return (c.join sub).inheritLine sub

/-- The indentation of a line goes behind what is written, whatever that ends with. -/
theorem writeIndent?_eq (c : Chunk) :
    c.writeIndent? = if endsLine c.text then some c.writeIndent else none := by
  have hsize : c.text.takeBytes c.size = c.text := c.text.takeBytes_size
  unfold writeIndent? indentAt?
  dsimp only
  rw [hsize]
  rfl

/-- A part of a line is written with the check where its indentation, if any, has a line feed in
front of it. -/
theorem writeLine?_eq (line : Text) (h : c.atLineStart = true → endsLine c.text = true) :
    c.writeLine? line = some (c.writeLine line) := by
  unfold writeLine? writeLine
  split
  · rfl
  · dsimp only
    by_cases hline : c.atLineStart = true
    · rw [if_pos hline, if_pos hline, writeIndent?_eq, if_pos (h hline)]
      rfl
    · rw [if_neg hline, if_neg hline]
      rfl

/-- At a line start with no line feed in front of it, the check stops every part of a line. -/
theorem writeLine?_eq_none {line : Text} (hne : line ≠ []) (hline : c.atLineStart = true)
    (h : endsLine c.text = false) : c.writeLine? line = none := by
  have hempty : ¬line.isEmpty = true := fun he => hne (List.isEmpty_iff.1 he)
  rw [writeLine?, if_neg hempty, if_pos hline, writeIndent?_eq, h]
  rfl

/-! ### Lines that start behind a line feed -/

theorem endsLine_concat_lineFeed (t : Text) : endsLine (t ++ ['\n']) = true := by
  rw [endsLine, List.getLast?_concat]
  rfl

/-- An indented text ends with a line feed exactly if the text did. -/
theorem endsLine_indented (indentation t : Text) :
    endsLine (indented indentation t) = endsLine t := by
  induction t with
  | nil => rfl
  | cons x t ih =>
    rw [indented_cons]
    rcases Decidable.em (t = []) with rfl | hne
    · have hnil : startsWithContent [] = false := rfl
      rw [hnil, Bool.and_false, if_neg Bool.false_ne_true]
      rfl
    · have hsize := size_indented indentation 0 t
      have hindented : indented indentation t ≠ [] := by
        intro hempty
        have hpos := Text.size_pos hne
        rw [hempty, Text.size_nil] at hsize
        omega
      rw [endsLine_cons x (by simp [hindented]), endsLine_append _ hindented, ih,
        endsLine_cons x hne]

/-- Wherever a line with characters starts behind the first, a line feed stands in front. -/
theorem foldrM_indentAt? (indentation front t : Text) (htext : c.text = front ++ t) :
    (contentLineStarts front.size t).foldrM (fun start d => d.indentAt? start indentation) c =
      some ((contentLineStarts front.size t).foldr
        (fun start d => d.splice start start indentation) c) := by
  induction t generalizing front with
  | nil => rfl
  | cons x t ih =>
    have hsize : Text.size (front ++ [x]) = front.size + x.utf8Size := by
      rw [Text.size_append, Text.size_cons, Text.size_nil, Nat.add_zero]
    have htext' : c.text = (front ++ [x]) ++ t := by
      rw [htext, List.append_assoc, List.singleton_append]
    have hrest := ih (front ++ [x]) htext'
    have hinner := text_foldr_splice indentation (front ++ [x]) t htext'
    rw [hsize] at hrest hinner
    unfold contentLineStarts
    dsimp only
    split
    · next hcontent =>
      have hx : x = '\n' := by simpa using (Bool.and_eq_true_iff.1 hcontent).1
      -- The places behind this one come first, and leave what stands in front of it.
      rw [List.foldrM_cons, hrest, Option.bind_eq_bind, Option.bind_some, indentAt?, hinner,
        ← hsize, Text.takeBytes_size_append, hx, endsLine_concat_lineFeed, if_pos rfl]
      rfl
    · exact hrest

/-- Indenting the lines of a chunk puts indentation at line starts only. -/
theorem indentLines?_eq (indentation : Text) (c : Chunk) :
    c.indentLines? indentation = some (c.indentLines indentation) :=
  foldrM_indentAt? indentation [] c.text rfl

/-! ### Chunks that start lines behind line feeds -/

/-- Lines end with a line feed, and a chunk that stands at the start of a line ends with one. -/
structure StartsLines (c : Chunk) : Prop where
  feed : c.options.lineEnd = ['\n']
  ends : c.atLineStart = true → endsLine c.text = true

/-- A chunk that stands at the start of a line ends with a line feed behind an edit: either
something is left behind the replaced text, or the line feed is in front of it or put there. -/
def LeavesLineEnd (start stop : Nat) (t : Text) (c : Chunk) : Prop :=
  c.atLineStart = true → stop < c.size ∨ endsLine (c.text.takeBytes start ++ t) = true

namespace StartsLines

theorem empty (feed : options.lineEnd = ['\n']) : StartsLines { options } :=
  ⟨feed, fun h => by cases h⟩

/-- Behind a part of a line the chunk is inside of it, so nothing is asked of its text. -/
theorem writeLine (h : c.StartsLines) (line : Text) : (c.writeLine line).StartsLines := by
  refine ⟨?_, fun hline => ?_⟩
  · unfold Chunk.writeLine
    split
    · exact h.feed
    · dsimp only
      split
      · exact (congrArg ChunkOptions.lineEnd (layout_writeIndent c).2).trans h.feed
      · exact h.feed
  · by_cases hne : line = []
    · subst hne
      exact h.ends hline
    · rw [atLineStart_writeLine c hne] at hline
      cases hline

theorem breakLine (h : c.StartsLines) : c.breakLine.StartsLines := by
  refine ⟨h.feed, fun _ => ?_⟩
  rw [Chunk.breakLine, h.feed]
  exact endsLine_concat_lineFeed c.text

/-- A text is written with all indentation at line starts, and leaves a chunk that starts lines
there. -/
theorem append (h : c.StartsLines) (t : Text) :
    c.append? t = some (c.append t) ∧ (c.append t).StartsLines := by
  unfold append? Chunk.append
  cases linesOf t with
  | nil => exact ⟨rfl, h⟩
  | cons first others =>
    dsimp only
    have hfirst := h.writeLine first
    rw [writeLine?_eq first h.ends]
    generalize c.writeLine first = d at hfirst
    rw [Option.bind_eq_bind, Option.bind_some]
    induction others generalizing d with
    | nil => exact ⟨rfl, hfirst⟩
    | cons line others ih =>
      have hbroken := hfirst.breakLine
      rw [List.foldlM_cons, writeLine?_eq line hbroken.ends, Option.bind_eq_bind, Option.bind_some]
      exact ih _ (hbroken.writeLine line)

/-- An edit leaves the mark of a line start, and a line feed in front of it exactly if something is
left behind the replaced text or the line feed is in front of it or put there. -/
theorem endsLine_splice (h : c.StartsLines) {start stop : Nat} (t : Text)
    (hline : c.atLineStart = true) (hstop : c.text.isBoundary stop = true) :
    endsLine (c.splice start stop t).text = true ↔ c.LeavesLineEnd start stop t := by
  obtain ⟨front, back, htext, rfl⟩ := Text.isBoundary_iff.1 hstop
  have hdrop : c.text.dropBytes front.size = back := by
    rw [htext, Text.dropBytes_size_append]
  have hsize : c.size = front.size + back.size := by
    rw [size, htext, Text.size_append]
  rw [text_splice, hdrop]
  rcases Decidable.em (back = []) with rfl | hne
  · have hnlt : ¬front.size < c.size := by
      rw [hsize, Text.size_nil]
      omega
    rw [List.append_nil]
    exact ⟨fun hends _ => .inr hends, fun hleaves => (hleaves hline).resolve_left hnlt⟩
  · have hlt : front.size < c.size := by
      have hpos := Text.size_pos hne
      omega
    have hends := h.ends hline
    rw [htext, endsLine_append front hne] at hends
    rw [endsLine_append _ hne]
    exact ⟨fun _ _ => .inl hlt, fun _ => hends⟩

theorem splice (h : c.StartsLines) {start stop : Nat} (t : Text)
    (hstop : c.text.isBoundary stop = true) (hleaves : c.LeavesLineEnd start stop t) :
    (c.splice start stop t).StartsLines := by
  have hoptions : (c.splice start stop t).options = c.options := by rw [splice_eq]
  have hmark : (c.splice start stop t).atLineStart = c.atLineStart := atLineStart_move _ _
  refine ⟨hoptions ▸ h.feed, fun hline => ?_⟩
  rw [hmark] at hline
  exact (h.endsLine_splice t hline hstop).2 hleaves

/-- Any chunk is added with all indentation at line starts. -/
theorem add? (h : c.StartsLines) (other : Chunk) : c.add? other = some (c.add other) := by
  unfold Chunk.add? Chunk.add
  rw [indentLines?_eq, Option.bind_eq_bind, Option.bind_some]
  dsimp only
  split
  · next hstarts =>
    rw [writeIndent?_eq, if_pos (h.ends (Bool.and_eq_true_iff.1 hstarts).1)]
    rfl
  · rfl

/-- A chunk that starts lines behind line feeds still does with another such chunk added. -/
theorem add (h : c.StartsLines) (hother : other.StartsLines) : (c.add other).StartsLines := by
  let sub := other.closeAll.indentLines (c.indentText c.indentation)
  let base := if c.atLineStart && startsWithContent sub.text then c.writeIndent else c
  have hsub : sub.text = indented (c.indentText c.indentation) other.text := text_indentLines _ _
  have hmark : sub.atLineStart = other.atLineStart := by
    suffices hplaces : ∀ places : List Nat, (places.foldr (fun start d =>
        d.splice start start (c.indentText c.indentation)) other.closeAll).atLineStart =
          other.atLineStart from hplaces _
    intro places
    induction places with
    | nil => rfl
    | cons place places ih => exact (atLineStart_move _ _).trans ih
  have hfeed : base.options.lineEnd = ['\n'] := by
    dsimp only [base]
    split
    · exact (congrArg ChunkOptions.lineEnd (layout_writeIndent c).2).trans h.feed
    · exact h.feed
  show ((base.join sub).inheritLine sub).StartsLines
  unfold Chunk.inheritLine
  split
  · next hempty =>
    have hnil : sub.text = [] := List.isEmpty_iff.1 hempty
    have hbase : base = c := by
      dsimp only [base]
      rw [hnil]
      exact if_neg (by simp [startsWithContent])
    refine ⟨hfeed, fun hline => ?_⟩
    rw [hbase] at hline ⊢
    show endsLine (c.text ++ sub.text) = true
    rw [hnil, List.append_nil]
    exact h.ends hline
  · next hempty =>
    have hne : sub.text ≠ [] := fun hnil => hempty (List.isEmpty_iff.2 hnil)
    refine ⟨hfeed, fun hline => ?_⟩
    show endsLine (base.text ++ sub.text) = true
    rw [endsLine_append _ hne, hsub, endsLine_indented]
    exact hother.ends (hmark ▸ hline)

end StartsLines

/-! ### Runs -/

/-- The chunk to which some operations take a chunk, if every edit at the start of a line leaves a
line feed at the end of the text, and lines end with a line feed in every chunk that is added. -/
inductive LineRun : Chunk → Chunk → Prop
  | refl (c : Chunk) : LineRun c c
  | append {c d : Chunk} (h : LineRun c d) (t : Text) : LineRun c (d.append t)
  | openMapping {c d : Chunk} (h : LineRun c d) (origin : Origin) : LineRun c (d.openMapping origin)
  | closeMapping {c d : Chunk} (h : LineRun c d) (index : Nat) : LineRun c (d.closeMapping index)
  | insert {c d : Chunk} (h : LineRun c d) (offset : Nat) (t : Text)
      (leaves : d.LeavesLineEnd (d.clamp offset) (d.clamp offset) t) :
      LineRun c (d.insert offset t)
  | update {c d : Chunk} (h : LineRun c d) (a b : Nat) (t : Text)
      (leaves : d.LeavesLineEnd (min (d.clamp a) (d.clamp b)) (max (d.clamp a) (d.clamp b)) t) :
      LineRun c (d.update a b t)
  | add {c d other : Chunk} {options : ChunkOptions} (h : LineRun c d)
      (feed : options.lineEnd = ['\n']) (written : LineRun { options } other) :
      LineRun c (d.add other)
  | indent {c d : Chunk} (h : LineRun c d) (levels : Nat) : LineRun c (d.indent levels)
  | dedent {c d : Chunk} (h : LineRun c d) (levels : Nat) : LineRun c (d.dedent levels)
  | mark {c d : Chunk} (h : LineRun c d) (name : Text) : LineRun c (d.mark name)
  | markTemplate {c d : Chunk} (h : LineRun c d) (name : Text) (offset : Nat) :
      LineRun c (d.markTemplate name offset)
  | locating {c d : Chunk} (name : Text) (write : Chunk → Id Chunk) (h : LineRun c d)
      (written : LineRun d (write d)) : LineRun c (d.locating name write)

theorem isBoundary_max_clamp (c : Chunk) (a b : Nat) :
    c.text.isBoundary (max (c.clamp a) (c.clamp b)) = true :=
  Text.isBoundary_max (c.isBoundary_clamp a) (c.isBoundary_clamp b)

/-- A run leaves a chunk that starts lines behind line feeds. -/
theorem LineRun.startsLines (h : LineRun c d) (hc : c.StartsLines) : d.StartsLines := by
  induction h with
  | refl => exact hc
  | append _ t ih => exact ((ih hc).append t).2
  | openMapping _ _ ih | closeMapping _ _ ih | indent _ _ ih | dedent _ _ ih | mark _ _ ih
  | markTemplate _ _ _ ih => exact ⟨(ih hc).feed, (ih hc).ends⟩
  | insert _ offset t leaves ih => exact (ih hc).splice t (isBoundary_clamp _ offset) leaves
  | update _ a b t leaves ih => exact (ih hc).splice t (isBoundary_max_clamp _ a b) leaves
  | add _ feed _ ih written => exact (ih hc).add (written (.empty feed))
  | locating name write _ _ ih written => exact ⟨(written (ih hc)).feed, (written (ih hc)).ends⟩

/-- In every state that is reached, a chunk at the start of a line ends with a line feed, and
whatever is written or added puts indentation behind line feeds only. For an edit at the start of a
line the condition on its place and its text is the exact one: without it, the next part of a line
that is written has indentation in the middle of a line. -/
theorem LineRun.indents_at_line_starts (h : LineRun { options } c)
    (feed : options.lineEnd = ['\n']) :
    (c.atLineStart = true → endsLine c.text = true) ∧
      (∀ t, c.append? t = some (c.append t)) ∧
      (∀ other, c.add? other = some (c.add other)) ∧
      ∀ a b t line, c.atLineStart = true → line ≠ [] → '\n' ∉ line →
        ((c.update a b t).append? line = some ((c.update a b t).append line) ↔
          c.LeavesLineEnd (min (c.clamp a) (c.clamp b)) (max (c.clamp a) (c.clamp b)) t) := by
  have hc : c.StartsLines := h.startsLines (.empty feed)
  refine ⟨hc.ends, fun t => (hc.append t).1, hc.add?, fun a b t line hline hne hfeed => ?_⟩
  have hstop := c.isBoundary_max_clamp a b
  refine ⟨fun hwritten => ?_, fun hleaves => ((hc.splice t hstop hleaves).append line).1⟩
  have hmark : (c.update a b t).atLineStart = true := (atLineStart_move _ _).trans hline
  refine (hc.endsLine_splice t hline hstop).1 (Bool.of_not_eq_false fun hends => ?_)
  have hnone : (c.update a b t).append? line = none := by
    rw [append?, linesOf_of_not_mem hfeed]
    dsimp only
    rw [writeLine?_eq_none hne hmark hends]
    rfl
  rw [hnone] at hwritten
  cases hwritten

/-- A line is written below an indented one whose first character has been replaced. -/
theorem LineRun.indents_at_line_starts_of_update :
    let c := ((({} : Chunk).append ['a', '\n']).indent 1).update 0 1 ['b']
    c.atLineStart = true ∧ endsLine c.text = true ∧ c.append? ['c'] = some (c.append ['c']) ∧
      (c.append ['c']).text = ['b', '\n', ' ', ' ', 'c'] := by
  intro c
  have hrun : LineRun {} c :=
    (((LineRun.refl _).append _).indent 1).update 0 1 ['b'] fun _ => .inl (by decide)
  obtain ⟨hends, happend, -, -⟩ := LineRun.indents_at_line_starts hrun rfl
  exact ⟨by decide, hends (by decide), happend ['c'], by decide⟩

/-- Removing the line feed leaves the mark of a line start, and the indentation of the next text is
written in the middle of the line. -/
theorem Run.indents_inside_line :
    ∃ c : Chunk, Run {} c ∧ c.options.lineEnd = ['\n'] ∧ c.atLineStart = true ∧
      endsLine c.text = false ∧ c.append? ['b'] = none ∧
      (c.append ['b']).text = ['a', ' ', ' ', 'b'] := by
  refine ⟨((({} : Chunk).append ['a', '\n']).remove 1 2).indent 1, ?_, by decide⟩
  exact (((Run.refl _).append _).remove 1 2).indent 1

end Chunk

end BoundTemplate.Output
