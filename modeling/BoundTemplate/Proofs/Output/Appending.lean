import BoundTemplate.Proofs.Output.Rendering

/-!
# Texts that are written one after the other

Where two texts are written one after the other, the last line of the first goes on with the first
line of the second, unless they part a line break: the carriage return at the end of the first text
is then written, while it belongs to the break if both are written at once. A line may be written in
parts, since its indentation is written with the first character of it. So it is the same whether
the texts are written together, exactly if no line break is parted.
-/

namespace BoundTemplate.Output

namespace Chunk

variable {c d : Chunk} {s t : Text}

/-- The first text ends with a carriage return and the second one starts with the line feed of its
line break. -/
def PartsBreak (s t : Text) : Prop := s.getLast? = some '\r' ∧ t.head? = some '\n'

/-! ### Lines of two texts -/

theorem linesOf_ne_nil (t : Text) : linesOf t ≠ [] := by
  induction t with
  | nil => exact List.cons_ne_nil _ _
  | cons x t ih =>
    unfold linesOf
    split
    · exact List.cons_ne_nil _ _
    · split
      · exact ih
      · split <;> exact List.cons_ne_nil _ _

/-- A character of a line belongs to the first one. -/
theorem linesOf_cons {x : Char} {line : Text} {lines : List Text} (hfeed : x ≠ '\n')
    (hreturn : ¬(x = '\r' ∧ t.head? = some '\n')) (h : linesOf t = line :: lines) :
    linesOf (x :: t) = (x :: line) :: lines := by
  rw [linesOf, if_neg hfeed, if_neg (by simpa using hreturn), h]

/-- The carriage return of a line break belongs to no line. -/
theorem linesOf_return (h : t.head? = some '\n') : linesOf ('\r' :: t) = linesOf t := by
  rw [linesOf, if_neg (by decide), if_pos (by simp [h])]

/-- If no line break is parted, the last line of the first text goes on with the first line of the
second one. -/
theorem linesOf_append (h : ¬PartsBreak s t) : ∃ initial last first others,
    linesOf s = initial ++ [last] ∧ linesOf t = first :: others ∧
      linesOf (s ++ t) = initial ++ (last ++ first) :: others := by
  induction s with
  | nil =>
    obtain ⟨first, others, ht⟩ := List.exists_cons_of_ne_nil (linesOf_ne_nil t)
    exact ⟨[], [], first, others, rfl, ht, ht⟩
  | cons x s ih =>
    have hrest : ¬PartsBreak s t := by
      refine fun hparts => h ⟨?_, hparts.2⟩
      have hne : s ≠ [] := fun hnil => by simp [hnil, PartsBreak] at hparts
      rw [List.getLast?_cons_of_ne_nil hne]
      exact hparts.1
    obtain ⟨initial, last, first, others, hs, ht, hst⟩ := ih hrest
    -- What comes behind the first character decides whether it is part of a line break.
    have hnext : x = '\r' → (s ++ t).head? = some '\n' → s.head? = some '\n' := by
      rintro rfl hhead
      cases s with
      | nil => exact absurd ⟨rfl, hhead⟩ h
      | cons y s => exact hhead
    by_cases hfeed : x = '\n'
    · subst hfeed
      refine ⟨[] :: initial, last, first, others, ?_, ht, ?_⟩
      · rw [linesOf, if_pos rfl, hs, List.cons_append]
      · rw [List.cons_append, linesOf, if_pos rfl, hst, List.cons_append]
    by_cases hreturn : x = '\r' ∧ s.head? = some '\n'
    · obtain ⟨rfl, hhead⟩ := hreturn
      have hhead' : (s ++ t).head? = some '\n' := by
        rw [List.head?_append, hhead, Option.some_or]
      refine ⟨initial, last, first, others, ?_, ht, ?_⟩
      · rw [linesOf_return hhead, hs]
      · rw [List.cons_append, linesOf_return hhead', hst]
    · have hreturn' : ¬(x = '\r' ∧ (s ++ t).head? = some '\n') :=
        fun hx => hreturn ⟨hx.1, hnext hx.1 hx.2⟩
      cases initial with
      | nil =>
        refine ⟨[], x :: last, first, others, linesOf_cons hfeed hreturn hs, ht, ?_⟩
        exact linesOf_cons hfeed hreturn' hst
      | cons line initial =>
        refine ⟨(x :: line) :: initial, last, first, others, linesOf_cons hfeed hreturn hs, ht, ?_⟩
        exact linesOf_cons hfeed hreturn' hst

/-! ### Writing in parts -/

/-- A line may be written in two parts. -/
theorem writeLine_append (c : Chunk) (line more : Text) :
    c.writeLine (line ++ more) = (c.writeLine line).writeLine more := by
  by_cases hline : line = []
  · subst hline
    rfl
  have hne : line ++ more ≠ [] := fun hnil => hline (List.append_eq_nil_iff.1 hnil).1
  rw [writeLine_of_inside more (atLineStart_writeLine c hline)]
  cases hstart : c.atLineStart with
  | true =>
    rw [writeLine_of_atLineStart hne hstart, writeLine_of_atLineStart hline hstart,
      ← List.append_assoc]
  | false =>
    rw [writeLine_of_inside _ hstart, writeLine_of_inside _ hstart, ← List.append_assoc]

/-- If no line break is parted, two texts are written like one. -/
theorem append_append_of_not_partsBreak (c : Chunk) (h : ¬PartsBreak s t) :
    (c.append s).append t = c.append (s ++ t) := by
  obtain ⟨initial, last, first, others, hs, ht, hst⟩ := linesOf_append h
  rw [append, append, append, hs, ht, hst]
  cases initial with
  | nil =>
    dsimp only [List.nil_append]
    rw [writeLine_append, List.foldl_nil]
  | cons line initial =>
    dsimp only [List.cons_append]
    rw [List.foldl_append, List.foldl_append, List.foldl_cons, List.foldl_cons, List.foldl_nil,
      writeLine_append]

/-- What is written behind a line break depends on the level and the options only. -/
theorem text_append_feed (hindentation : d.indentation = c.indentation)
    (hoptions : d.options = c.options) (t : Text) :
    (d.append ('\n' :: t)).text =
      d.text ++ Stroke.textOf ((linesOf t).flatMap c.brokenStrokes) := by
  have hbroken : d.brokenStrokes = c.brokenStrokes := by
    funext line
    rw [brokenStrokes, brokenStrokes, hoptions, hindentation, indentText_congr hoptions]
  have hlines : linesOf ('\n' :: t) = [] :: linesOf t := by rw [linesOf, if_pos rfl]
  rw [text_append, ← linesOf_eq_partedLines, hlines, strokes, hbroken]
  rfl

/-- Two texts that are written one after the other leave the chunk that both leave at once, exactly
if they part no line break. -/
theorem append_append_iff (c : Chunk) (s t : Text) :
    (c.append s).append t = c.append (s ++ t) ↔
      ¬PartsBreak s t := by
  refine ⟨fun hsame hparts => ?_, append_append_of_not_partsBreak c⟩
  obtain ⟨initial, rfl⟩ := List.getLast?_eq_some_iff.1 hparts.1
  obtain ⟨rest, rfl⟩ := List.head?_eq_some_iff.1 hparts.2
  let d := c.append initial
  -- The carriage return is written if it comes first, and otherwise it belongs to the line break.
  have hjoined (more : Text) : c.append (initial ++ '\r' :: more) = d.append ('\r' :: more) := by
    refine (append_append_of_not_partsBreak c fun h => ?_).symm
    exact absurd h.2 (by simp)
  have hbreak : c.append (initial ++ ['\r'] ++ '\n' :: rest) = d.append ('\n' :: rest) := by
    rw [List.append_assoc, List.singleton_append, hjoined, append, linesOf_return rfl]
    rfl
  have hwritten : (d.append ['\r']).text = d.text ++ (d.owed ++ ['\r']) := by
    rw [text_append, ← linesOf_eq_partedLines, linesOf_of_not_mem (by decide)]
    rfl
  have hbehind := text_append_feed (indentation_append ['\r'] d) (options_append ['\r'] d) rest
  have htexts := congrArg Chunk.text hsame
  rw [hjoined, hbreak, hbehind, text_append_feed rfl rfl rest, hwritten] at htexts
  have hnone : d.text ++ (d.owed ++ ['\r']) = d.text := List.append_cancel_right htexts
  simp at hnone

end Chunk

end BoundTemplate.Output
