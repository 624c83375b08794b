import BoundTemplate.Proofs.Output.Locating
import BoundTemplate.Proofs.Output.Revision
import BoundTemplate.Proofs.Output.Writing

/-!
# What a text is written as

A text is parted at its line feeds, and its lines are written one after the other: a break in
front of each but the first, and in front of each that has characters its indentation. All of it
goes to the end of the chunk. What has ended with some bytes stays, and a mapping that is open
while the text is written starts behind the indentation that comes in front of any other byte.
-/

namespace BoundTemplate.Output

namespace Chunk

/-! ### Lines -/

/-- A line without the carriage return that is part of the break behind it. -/
def withoutReturn (line : Text) : Text :=
  if line.getLast? = some '\r' then line.dropLast else line

/-- Lines without the carriage returns of their breaks. There is no break behind the last one. -/
def withoutReturns : List Text → List Text
  | [] => []
  | [last] => [last]
  | line :: lines => withoutReturn line :: withoutReturns lines

/-- The parts of a text between its line feeds, without the carriage returns in front of these. -/
def partedLines (t : Text) : List Text := withoutReturns (t.splitOn '\n')

theorem withoutReturns_cons (line : Text) {lines : List Text} (h : lines ≠ []) :
    withoutReturns (line :: lines) = withoutReturn line :: withoutReturns lines := by
  cases lines with
  | nil => exact absurd rfl h
  | cons next others => rfl

/-- A character in front of a line with characters does not change what its break is. -/
theorem withoutReturn_cons (x : Char) {line : Text} (h : line ≠ []) :
    withoutReturn (x :: line) = x :: withoutReturn line := by
  rw [withoutReturn, withoutReturn, List.getLast?_cons_of_ne_nil h, List.dropLast_cons_of_ne_nil h]
  split <;> rfl

/-- A line feed parts a text that starts with it from a line without characters. -/
theorem splitOn_feed (t : Text) : ('\n' :: t).splitOn '\n' = [] :: t.splitOn '\n' := by
  rw [List.splitOn_cons_eq_if_modifyHead]
  rfl

/-- Any other character belongs to the first line. -/
theorem splitOn_of_ne {x : Char} (hx : x ≠ '\n') (t : Text) {line : Text} {lines : List Text}
    (h : t.splitOn '\n' = line :: lines) : (x :: t).splitOn '\n' = (x :: line) :: lines := by
  rw [List.splitOn_cons_eq_if_modifyHead, if_neg (by simpa using hx), h]
  rfl

/-- A text starts with a line feed exactly if a line without characters is parted from another. -/
theorem head?_eq_feed_iff {t line : Text} {lines : List Text}
    (h : t.splitOn '\n' = line :: lines) : t.head? = some '\n' ↔ line = [] ∧ lines ≠ [] := by
  cases t with
  | nil =>
    rw [List.splitOn_nil] at h
    obtain ⟨-, rfl⟩ := List.cons.inj h
    simp only [List.head?_nil, reduceCtorEq, ne_eq, not_true_eq_false, and_false]
  | cons x t =>
    by_cases hx : x = '\n'
    · subst hx
      rw [splitOn_feed] at h
      obtain ⟨rfl, rfl⟩ := List.cons.inj h
      exact ⟨fun _ => ⟨rfl, List.splitOn_ne_nil _ _⟩, fun _ => rfl⟩
    · obtain ⟨first, others, hparts⟩ := List.exists_cons_of_ne_nil (List.splitOn_ne_nil '\n' t)
      rw [splitOn_of_ne hx t hparts] at h
      obtain ⟨rfl, -⟩ := List.cons.inj h
      exact ⟨fun hhead => absurd (Option.some.inj hhead) hx, fun hline => nomatch hline.1⟩

/-- The lines of a text are its parts between line feeds. -/
theorem linesOf_eq_partedLines (t : Text) : linesOf t = partedLines t := by
  induction t with
  | nil => rfl
  | cons x t ih =>
    obtain ⟨line, lines, hparts⟩ := List.exists_cons_of_ne_nil (List.splitOn_ne_nil '\n' t)
    have hfeed := head?_eq_feed_iff hparts
    rw [partedLines] at ih ⊢
    by_cases hx : x = '\n'
    · subst hx
      rw [linesOf, if_pos rfl, ih, splitOn_feed, withoutReturns_cons [] (List.splitOn_ne_nil _ _)]
      rfl
    rw [splitOn_of_ne hx t hparts, linesOf, if_neg hx]
    rw [hparts] at ih
    by_cases hlines : lines = []
    · subst hlines
      rw [if_neg (by simp [hfeed]), ih]
      rfl
    · rw [withoutReturns_cons _ hlines] at ih ⊢
      by_cases hline : line = []
      · subst hline
        by_cases hreturn : x = '\r'
        · rw [if_pos (by simp [hfeed, hreturn, hlines]), ih, hreturn]
          rfl
        · rw [if_neg (by simp [hreturn]), ih]
          simp [withoutReturn, hreturn]
      · rw [if_neg (by simp [hfeed, hline]), ih, withoutReturn_cons x hline]

end Chunk

/-! ### Strokes -/

/-- What is written at the end of a text in one piece: the indentation of a line, or a break or the
characters of a line. -/
inductive Stroke where
  | indentation (t : Text)
  | content (t : Text)
  deriving DecidableEq, Repr

namespace Stroke

/-- The characters that are written. -/
def text : Stroke → Text
  | indentation t | content t => t

/-- The text that some strokes write. -/
def textOf (strokes : List Stroke) : Text := strokes.flatMap text

/-- Whether a stroke writes nothing but indentation. -/
def isBlank : Stroke → Bool
  | indentation _ => true
  | content t => t.isEmpty

/-- The indentation that some strokes write in front of any other byte. -/
def leading (strokes : List Stroke) : Text := textOf (strokes.takeWhile isBlank)

theorem textOf_cons (stroke : Stroke) (strokes : List Stroke) :
    textOf (stroke :: strokes) = stroke.text ++ textOf strokes :=
  List.flatMap_cons

theorem textOf_singleton (stroke : Stroke) : textOf [stroke] = stroke.text :=
  List.flatMap_singleton ..

theorem textOf_append (strokes more : List Stroke) :
    textOf (strokes ++ more) = textOf strokes ++ textOf more :=
  List.flatMap_append

theorem isBlank_of_text_eq_nil {stroke : Stroke} (h : stroke.text = []) :
    stroke.isBlank = true := by
  cases stroke with
  | indentation t => rfl
  | content t => exact List.isEmpty_iff.2 h

theorem leading_cons_of_isBlank {stroke : Stroke} (h : stroke.isBlank = true)
    (strokes : List Stroke) : leading (stroke :: strokes) = stroke.text ++ leading strokes := by
  rw [leading, List.takeWhile_cons_of_pos h]
  exact List.flatMap_cons

theorem leading_cons_of_not_isBlank {stroke : Stroke} (h : ¬stroke.isBlank = true)
    (strokes : List Stroke) : leading (stroke :: strokes) = [] := by
  rw [leading, List.takeWhile_cons_of_neg h]
  rfl

theorem leading_prefix (strokes : List Stroke) : leading strokes <+: textOf strokes := by
  obtain ⟨more, hmore⟩ := List.takeWhile_prefix (l := strokes) isBlank
  exact ⟨textOf more, by rw [leading, ← textOf_append, hmore]⟩

/-- More strokes add to the indentation in front exactly if nothing else is written yet. -/
theorem leading_append (strokes more : List Stroke) : leading (strokes ++ more) =
    if leading strokes = textOf strokes then leading strokes ++ leading more
    else leading strokes := by
  induction strokes with
  | nil => rfl
  | cons stroke strokes ih =>
    rw [List.cons_append, textOf_cons]
    by_cases hblank : stroke.isBlank = true
    · rw [leading_cons_of_isBlank hblank, leading_cons_of_isBlank hblank, ih]
      simp only [List.append_cancel_left_eq]
      split <;> simp only [List.append_assoc]
    · have hne : [] ≠ stroke.text ++ textOf strokes := fun hnil =>
        hblank (isBlank_of_text_eq_nil (List.append_eq_nil_iff.1 hnil.symm).1)
      rw [leading_cons_of_not_isBlank hblank, leading_cons_of_not_isBlank hblank, if_neg hne]

/-- Strokes that start with other bytes add nothing to the indentation in front. -/
theorem leading_append_of_none (strokes : List Stroke) {more : List Stroke}
    (h : leading more = []) : leading (strokes ++ more) = leading strokes := by
  rw [leading_append, h, List.append_nil, ite_self]

/-- Where the end of a text is indented, a place behind the indentation that comes first goes on
behind it. -/
theorem move_leading (size : Nat) (strokes : List Stroke) (t : Text) :
    Edit.move ⟨size + (textOf strokes).size, 0, t.size⟩ .after (size + (leading strokes).size) =
      size + (leading (strokes ++ [indentation t])).size := by
  rw [leading_append]
  split
  · next hall =>
    have ht : leading [indentation t] = t := List.flatMap_singleton ..
    rw [hall, ht, Edit.move_after_start, Text.size_append, Nat.add_assoc]
  · next hpart =>
    obtain ⟨rest, hrest⟩ := leading_prefix strokes
    have hne : rest ≠ [] := fun hnil => hpart (by rw [← hrest, hnil, List.append_nil])
    have hpos := Text.size_pos hne
    refine Edit.move_of_lt .after ?_
    rw [← hrest, Text.size_append]
    dsimp only
    omega

end Stroke

namespace Chunk

/-- The indentation that the next characters are owed. -/
def owed (c : Chunk) : Text :=
  if c.atLineStart then c.indentText (c.indentation + c.carried) else []

/-- How a line is written: without characters, nothing is indented. -/
def lineStrokes (indentation line : Text) : List Stroke :=
  if line = [] then [] else [.indentation indentation, .content line]

/-- How a line is written behind a break. -/
def brokenStrokes (c : Chunk) (line : Text) : List Stroke :=
  .content c.options.lineEnd :: lineStrokes (c.indentText c.indentation) line

/-- How lines are written at the end of a chunk. -/
def strokes (c : Chunk) : List Text → List Stroke
  | [] => []
  | first :: others => lineStrokes c.owed first ++ others.flatMap c.brokenStrokes

/-! ### What is written -/

variable {c d w : Chunk} {n : Nat} {origin : Origin} {written : List Stroke}

/-- Two chunks are another one with the same strokes at the end, and in the second one a mapping is
open that was begun in front of the strokes. -/
structure Writes (c : Chunk) (n : Nat) (origin : Origin) (written : List Stroke) (d w : Chunk) :
    Prop where
  text_eq : d.text = c.text ++ Stroke.textOf written
  indentation_eq : d.indentation = c.indentation
  options_eq : d.options = c.options
  around : Around n origin (c.size + (Stroke.leading written).size) d w

namespace Writes

theorem openMapping (c : Chunk) (origin : Origin) :
    Writes c c.mappings.length origin [] c (c.openMapping origin) where
  text_eq := (List.append_nil _).symm
  indentation_eq := rfl
  options_eq := rfl
  around := ⟨c.mappings, [], (List.append_nil _).symm, rfl, rfl⟩

theorem size_eq (h : Writes c n origin written d w) :
    d.size = c.size + (Stroke.textOf written).size := by
  rw [size, h.text_eq, Text.size_append]
  rfl

/-- What is owed to a line is no part of what is written. -/
theorem relayout (h : Writes c n origin written d w) (line : Bool) (carried : Nat) :
    Writes c n origin written { d with atLineStart := line, carried := carried }
      { w with atLineStart := line, carried := carried } where
  text_eq := h.text_eq
  indentation_eq := h.indentation_eq
  options_eq := h.options_eq
  around := h.around.apply (fun c => { c with atLineStart := line, carried := carried })
    (fun _ _ => rfl) fun _ => rfl

/-- Content goes to the end, and the open mapping stays. -/
theorem content (h : Writes c n origin written d w) (t : Text) :
    Writes c n origin (written ++ [.content t]) { d with text := d.text ++ t }
      { w with text := w.text ++ t } where
  text_eq := by
    rw [Stroke.textOf_append, Stroke.textOf_singleton, h.text_eq, List.append_assoc]
    rfl
  indentation_eq := h.indentation_eq
  options_eq := h.options_eq
  around := by
    have hcontent : Stroke.leading [.content t] = [] := by cases t <;> rfl
    rw [Stroke.leading_append_of_none written hcontent]
    exact h.around.apply (fun c => { c with text := c.text ++ t }) (fun _ _ => rfl) fun _ => rfl

/-- Indentation goes to the end as well, and takes the open mapping with it if nothing else is
written. -/
theorem writeIndent (h : Writes c n origin written d w) :
    Writes c n origin (written ++ [.indentation (d.indentText (d.indentation + d.carried))])
      d.writeIndent w.writeIndent where
  text_eq := by
    rw [text_writeIndent, Stroke.textOf_append, Stroke.textOf_singleton, h.text_eq,
      List.append_assoc]
    rfl
  indentation_eq := (layout_writeIndent d).1.trans h.indentation_eq
  options_eq := (layout_writeIndent d).2.trans h.options_eq
  around := by
    have hindented := h.around.writeIndent
    rwa [h.size_eq, Stroke.move_leading] at hindented

/-- A line that has begun is owed no indentation. -/
theorem inside (h : Writes c n origin written d w) :
    Writes c n origin (written ++ [.indentation []]) d w where
  text_eq := by
    rw [Stroke.textOf_append, Stroke.textOf_singleton, h.text_eq]
    exact congrArg (c.text ++ ·) (List.append_nil _).symm
  indentation_eq := h.indentation_eq
  options_eq := h.options_eq
  around := by
    rw [Stroke.leading_append_of_none written rfl]
    exact h.around

/-- A part of a line is written behind the indentation that it is owed. -/
theorem writeLine (h : Writes c n origin written d w) (line : Text) :
    Writes c n origin (written ++ lineStrokes d.owed line) (d.writeLine line)
      (w.writeLine line) := by
  have hw : w.atLineStart = d.atLineStart := h.around.atLineStart_eq
  by_cases hline : line = []
  · subst hline
    rw [lineStrokes, if_pos rfl, List.append_nil]
    exact h
  rw [lineStrokes, if_neg hline, owed, List.append_cons]
  cases hstart : d.atLineStart with
  | true =>
    rw [writeLine_of_atLineStart hline hstart, writeLine_of_atLineStart hline (hw.trans hstart)]
    exact h.writeIndent.content line
  | false =>
    rw [writeLine_of_inside line hstart, writeLine_of_inside line (hw.trans hstart)]
    exact h.inside.content line

/-- A line behind a break is written after it. -/
theorem writeBroken (h : Writes c n origin written d w) (line : Text) :
    Writes c n origin (written ++ c.brokenStrokes line) (d.breakLine.writeLine line)
      (w.breakLine.writeLine line) := by
  have hbroken : Writes c n origin (written ++ [.content d.options.lineEnd]) d.breakLine
      w.breakLine := by
    have hw : w.breakLine = { w with
        text := w.text ++ d.options.lineEnd, atLineStart := true, carried := 0 } := by
      rw [Chunk.breakLine, h.around.options_eq]
    rw [hw]
    exact (h.content d.options.lineEnd).relayout true 0
  have howed : d.breakLine.owed = c.indentText c.indentation := by
    change d.indentText d.indentation = c.indentText c.indentation
    rw [indentText_congr h.options_eq, h.indentation_eq]
  have hline := hbroken.writeLine line
  rwa [howed, h.options_eq, List.append_assoc] at hline

/-- Lines behind breaks are written one after the other. -/
theorem foldl (h : Writes c n origin written d w) (lines : List Text) :
    Writes c n origin (written ++ lines.flatMap c.brokenStrokes)
      (lines.foldl (fun d line => d.breakLine.writeLine line) d)
      (lines.foldl (fun d line => d.breakLine.writeLine line) w) := by
  induction lines generalizing written d w with
  | nil =>
    rw [List.flatMap_nil, List.append_nil]
    exact h
  | cons line lines ih =>
    rw [List.flatMap_cons, ← List.append_assoc]
    exact ih (h.writeBroken line)

/-- A text is written as its lines are. -/
theorem append (c : Chunk) (origin : Origin) (t : Text) :
    Writes c c.mappings.length origin (c.strokes (partedLines t)) (c.append t)
      ((c.openMapping origin).append t) := by
  rw [← linesOf_eq_partedLines, Chunk.append, Chunk.append]
  cases linesOf t with
  | nil => exact .openMapping c origin
  | cons first others => exact ((openMapping c origin).writeLine first).foldl others

end Writes

/-- A text goes to the end of a chunk as its strokes do. -/
theorem text_append (t : Text) (c : Chunk) :
    (c.append t).text = c.text ++ Stroke.textOf (c.strokes (partedLines t)) :=
  (Writes.append c { span := ⟨0, 0⟩ } t).text_eq

@[simp] theorem options_append (t : Text) (c : Chunk) : (c.append t).options = c.options :=
  (Writes.append c { span := ⟨0, 0⟩ } t).options_eq

/-! ### What has ended -/

/-- One chunk is another with more text at its end, where all that has ended with some bytes in
front of that text has stayed. -/
structure Grows (c d : Chunk) : Prop where
  begins : c.text <+: d.text
  mappings : ∀ (index : Nat) (origin : Origin) (s : Span),
    c.mappings[index]? = some ⟨origin, .closed s⟩ → s.start < s.stop → s.stop ≤ c.size →
    d.mappings[index]? = some ⟨origin, .closed s⟩
  located : ∀ (index : Nat) (name : Text) (s : Span),
    c.located[index]? = some (name, s) → s.start < s.stop → s.stop ≤ c.size →
    d.located[index]? = some (name, s)

/-- What has ended with some bytes is where it was, and has the bytes that it had. -/
structure KeepsEnded (c d : Chunk) : Prop where
  mappings : ∀ (index : Nat) (origin : Origin) (s : Span),
    c.mappings[index]? = some ⟨origin, .closed s⟩ → s.start < s.stop →
    d.mappings[index]? = some ⟨origin, .closed s⟩ ∧ d.text.bytesIn s = c.text.bytesIn s
  located : ∀ (index : Nat) (name : Text) (s : Span),
    c.located[index]? = some (name, s) → s.start < s.stop →
    d.located[index]? = some (name, s) ∧ d.text.bytesIn s = c.text.bytesIn s

namespace Grows

/-- Text is put at the end, and nothing moves. -/
theorem grow (more : Text) (htext : d.text = c.text ++ more) (hmappings : d.mappings = c.mappings)
    (hlocated : d.located = c.located) : Grows c d where
  begins := ⟨more, htext.symm⟩
  mappings _ _ _ hs _ _ := hmappings ▸ hs
  located _ _ _ hs _ _ := hlocated ▸ hs

theorem refl (c : Chunk) : Grows c c := grow [] (List.append_nil _).symm rfl rfl

theorem trans {e : Chunk} (h : Grows c d) (h' : Grows d e) : Grows c e := by
  have hsize : c.size ≤ d.size := by
    obtain ⟨more, hmore⟩ := h.begins
    rw [size, size, ← hmore, Text.size_append]
    exact Nat.le_add_right _ _
  exact
    { begins := h.begins.trans h'.begins
      mappings := fun index origin s hs hlt hle =>
        h'.mappings index origin s (h.mappings index origin s hs hlt hle) hlt
          (Nat.le_trans hle hsize)
      located := fun index name s hs hlt hle =>
        h'.located index name s (h.located index name s hs hlt hle) hlt
          (Nat.le_trans hle hsize) }

theorem writeIndent (c : Chunk) : Grows c c.writeIndent := by
  let inside : Chunk := { c with atLineStart := false, carried := 0 }
  let indent := c.indentText (c.indentation + c.carried)
  have hstays {s : Span} (empty : Bias) (hlt : s.start < s.stop) (hle : s.stop ≤ c.size) :
      Edit.moveSpan ⟨c.size, c.size - c.size, indent.size⟩ empty s = s := by
    rw [Nat.sub_self]
    exact Edit.moveSpan_of_le indent.size empty hlt hle
  refine ⟨⟨indent, (text_writeIndent c).symm⟩, fun index origin s hs hlt hle => ?_,
    fun index name s hs hlt hle => ?_⟩
  · obtain ⟨empty, hmoved⟩ : ∃ empty, c.writeIndent.mappings[index]? =
        some (Mapping.move ⟨c.size, c.size - c.size, indent.size⟩ empty ⟨origin, .closed s⟩) :=
      inside.getElem?_mappings_splice indent hs (Nat.le_of_lt hlt)
    rwa [Mapping.move, Extent.move, hstays empty hlt hle] at hmoved
  · obtain ⟨empty, hmoved⟩ : ∃ empty, c.writeIndent.located[index]? =
        some (name, Edit.moveSpan ⟨c.size, c.size - c.size, indent.size⟩ empty s) :=
      inside.getElem?_located_splice indent hs (Nat.le_of_lt hlt)
    rwa [hstays empty hlt hle] at hmoved

theorem writeLine (c : Chunk) (line : Text) : Grows c (c.writeLine line) := by
  by_cases hline : line = []
  · subst hline
    exact .refl c
  cases hstart : c.atLineStart with
  | true =>
    rw [writeLine_of_atLineStart hline hstart]
    exact (writeIndent c).trans (.grow line rfl rfl rfl)
  | false =>
    rw [writeLine_of_inside line hstart]
    exact .grow line rfl rfl rfl

theorem append (c : Chunk) (t : Text) : Grows c (c.append t) :=
  append_induction t (.refl c) (fun d line h => h.trans (writeLine d line))
    fun d h => h.trans (.grow d.options.lineEnd rfl rfl rfl)

theorem appendMapped (c : Chunk) (t : Text) (origin : Origin) :
    Grows c (c.appendMapped t origin) := by
  have hopen : Grows c (c.openMapping origin) := by
    refine ⟨List.prefix_rfl, fun index other s hs _ _ => ?_, fun _ _ _ hs _ _ => hs⟩
    exact (List.getElem?_append_left (List.getElem?_eq_some_iff.1 hs).1).trans hs
  obtain ⟨hbegins, hmappings, hlocated⟩ := hopen.trans (append (c.openMapping origin) t)
  refine ⟨hbegins, fun index other s hs hlt hle => ?_, hlocated⟩
  have hindex : c.mappings.length ≠ index := Nat.ne_of_gt (List.getElem?_eq_some_iff.1 hs).1
  rw [Chunk.appendMapped, closeMapping]
  dsimp only
  rw [List.getElem?_modify, hmappings index other s hs hlt hle]
  exact congrArg some (if_neg hindex)

/-- In a state that is reached, all that has ended with some bytes stays. -/
theorem keepsEnded (h : Grows c d) (hc : c.Reachable) : c.KeepsEnded d := by
  have hbytes {s : Span} (hle : s.stop ≤ c.size) : d.text.bytesIn s = c.text.bytesIn s := by
    obtain ⟨more, hmore⟩ := h.begins
    rw [Text.bytesIn, ← hmore, Text.bytes_append,
      List.take_append_of_le_length (by rwa [Text.length_bytes])]
    rfl
  refine ⟨fun index origin s hs hlt => ?_, fun index name s hs hlt => ?_⟩
  · have hle : s.stop ≤ c.size := (hc.bounded _ (List.mem_of_getElem? hs)).2
    exact ⟨h.mappings index origin s hs hlt hle, hbytes hle⟩
  · have hle : s.stop ≤ c.size :=
      (hc.tidy.located _ (List.mem_of_getElem? hs)).resolve_left (Nat.ne_of_lt hlt)
    exact ⟨h.located index name s hs hlt hle, hbytes hle⟩

end Grows

/-- One line without characters writes nothing. -/
theorem append_of_partedLines {t : Text} (h : partedLines t = [[]]) (c : Chunk) :
    c.append t = c := by
  rw [append, linesOf_eq_partedLines, h]
  rfl

/-- A text is written as its lines are, and its mapping covers all of them but for the indentation
that comes first. If there is but one line, without characters, nothing is written and the end of
the text is owed what it was. What has ended with some bytes stays, and keeps these. -/
theorem appendMapped_renders (hc : c.Reachable) (t : Text) (origin : Origin) :
    let lines := partedLines t
    let strokes := c.strokes lines
    let mapped := c.appendMapped t origin
    (c.append t).text = c.text ++ Stroke.textOf strokes ∧
      mapped.text = c.text ++ Stroke.textOf strokes ∧
      (lines = [[]] → c.append t = c ∧ mapped.text = c.text ∧
        mapped.atLineStart = c.atLineStart ∧ mapped.carried = c.carried) ∧
      mapped.mappings.length = c.mappings.length + 1 ∧
      mapped.mappings[c.mappings.length]? =
        some ⟨origin, .closed ⟨c.size + (Stroke.leading strokes).size, mapped.size⟩⟩ ∧
      c.KeepsEnded (c.append t) ∧ c.KeepsEnded mapped := by
  intro lines strokes mapped
  have hwrites := Writes.append c origin t
  have htext : mapped.text = (c.append t).text := hwrites.around.text_eq
  have hlength : mapped.mappings.length = (c.append t).mappings.length + 1 := by
    rw [← hwrites.around.length_eq]
    exact List.length_modify ..
  have hclosed := hwrites.around.getElem?_closeMapping
  have hstart : c.size + (Stroke.leading strokes).size ≤ (c.append t).size := by
    rw [hwrites.size_eq]
    obtain ⟨more, hmore⟩ := Stroke.leading_prefix strokes
    rw [← hmore, Text.size_append]
    omega
  rw [Nat.max_eq_left hstart] at hclosed
  refine ⟨hwrites.text_eq, htext.trans hwrites.text_eq, fun hlines => ?_, ?_, ?_,
    (Grows.append c t).keepsEnded hc, (Grows.appendMapped c t origin).keepsEnded hc⟩
  · have hmapped : mapped = (c.openMapping origin).closeMapping c.mappings.length :=
      congrArg (Chunk.closeMapping c.mappings.length) (append_of_partedLines hlines _)
    exact ⟨append_of_partedLines hlines c, by rw [hmapped]; rfl, by rw [hmapped]; rfl,
      by rw [hmapped]; rfl⟩
  · obtain ⟨f, -, hmappings⟩ := (extends_append c t).mappings
    rw [hlength, hmappings, List.length_map]
  · have hend : mapped.size = (c.append t).size := congrArg Text.size htext
    rw [hend]
    exact hclosed

/-- A text with blank lines and a lone carriage return is mapped where another mapping ends, at the
start of a line that is owed the indentation of two chunks. -/
theorem appendMapped_renders_behind_added :
    let origin : Origin := { span := ⟨0, 2⟩ }
    let other := (({} : Chunk).indent 1).appendMapped ['y', '\n'] origin
    let c := (({} : Chunk).add other).indent 1
    let t := ['a', '\r', '\n', '\r', '\n', '\r', 'b']
    let mapped := c.appendMapped t origin
    c.Reachable ∧ c.atLineStart = true ∧ c.carried = 1 ∧
      mapped.text = "y\n    a\n\n  \rb".toList ∧
      mapped.mappings[1]? = some ⟨origin, .closed ⟨6, 13⟩⟩ ∧
      mapped.mappings[0]? = some ⟨origin, .closed ⟨0, 2⟩⟩ := by
  intro origin other c t mapped
  have hother : Run { options := {} } other :=
    ((((Run.refl _).indent 1).openMapping origin).append _).closeMapping _
  have hc : c.Reachable := ⟨{}, ((Run.refl _).add hother).indent 1⟩
  obtain ⟨-, htext, -, -, hmapping, -, hkept⟩ := appendMapped_renders hc t origin
  have hstrokes : c.strokes (partedLines t) = [.indentation [' ', ' ', ' ', ' '], .content ['a'],
      .content ['\n'], .content ['\n'], .indentation [' ', ' '], .content ['\r', 'b']] := by
    decide +kernel
  rw [hstrokes] at htext hmapping
  have hend : mapped.size = 13 := congrArg Text.size htext
  rw [hend] at hmapping
  have hfirst := hkept.mappings 0 origin ⟨0, 2⟩ (by decide) (by decide)
  exact ⟨hc, by decide, by decide, htext, hmapping, hfirst.1⟩

end Chunk

end BoundTemplate.Output
