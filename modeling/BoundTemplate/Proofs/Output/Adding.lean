import BoundTemplate.Proofs.Output.Rendering

/-!
# What an added chunk becomes

A chunk is added with an indentation in front of every line with characters but the first. On the
bytes of its text this puts the same bytes at some places, so a stretch of them keeps its bytes and
gets the indentations of the places strictly inside of it, and none of those at its ends. That is
what every span with bytes of the added chunk goes on with, and all that has ended in the receiver
stays.
-/

namespace BoundTemplate.Output

/-! ### Bytes that are put at places -/

section Put

variable {α : Type} {more : List α} {places places' : List Nat}

/-- A list that starts at an offset, with the same members put in front of each that stands at one
of some places. -/
def putAt (more : List α) (places : List Nat) (offset : Nat) : List α → List α
  | [] => []
  | x :: xs => (if offset ∈ places then more else []) ++ x :: putAt more places (offset + 1) xs

theorem putAt_append (offset : Nat) (xs ys : List α) :
    putAt more places offset (xs ++ ys) =
      putAt more places offset xs ++ putAt more places (offset + xs.length) ys := by
  induction xs generalizing offset with
  | nil => rfl
  | cons x xs ih =>
    rw [List.cons_append, putAt, putAt, ih, List.length_cons, List.append_assoc, List.cons_append,
      Nat.add_assoc, Nat.add_comm 1]

/-- Only the places at which the list stands matter. -/
theorem putAt_congr {offset : Nat} {xs : List α}
    (h : ∀ p, offset ≤ p → p < offset + xs.length → (p ∈ places ↔ p ∈ places')) :
    putAt more places offset xs = putAt more places' offset xs := by
  induction xs generalizing offset with
  | nil => rfl
  | cons x xs ih =>
    rw [List.length_cons] at h
    have hfirst := h offset (Nat.le_refl _) (by omega)
    rw [putAt, putAt, ih fun p hle hlt => h p (by omega) (by omega)]
    simp only [hfirst]

/-- Away from all places, a list stays. -/
theorem putAt_of_not_mem {offset : Nat} {xs : List α}
    (h : ∀ p, offset ≤ p → p < offset + xs.length → p ∉ places) :
    putAt more places offset xs = xs := by
  induction xs generalizing offset with
  | nil => rfl
  | cons x xs ih =>
    rw [List.length_cons] at h
    rw [putAt, if_neg (h offset (Nat.le_refl _) (by omega)),
      ih fun p hle hlt => h p (by omega) (by omega), List.nil_append]

/-- What is put where a list starts comes in front of it. -/
theorem putAt_cons_self {offset : Nat} {xs : List α} (hne : xs ≠ []) (h : offset ∉ places) :
    putAt more (offset :: places) offset xs = more ++ putAt more places offset xs := by
  obtain ⟨x, xs, rfl⟩ := List.exists_cons_of_ne_nil hne
  have hrest : putAt more (offset :: places) (offset + 1) xs =
      putAt more places (offset + 1) xs := by
    refine putAt_congr fun p hle _ => ?_
    rw [List.mem_cons, or_iff_right (by omega)]
  rw [putAt, putAt, if_pos List.mem_cons_self, if_neg h, hrest, List.nil_append]

namespace Gaps

/-- A gap at an offset is between its two sides. -/
theorem before_after (hnodup : places.Nodup) (gap p : Nat) :
    before ⟨places, gap⟩ .after p =
      before ⟨places, gap⟩ .before p + if p ∈ places then 1 else 0 := by
  rw [← hnodup.count, before, before, List.count]
  clear hnodup
  induction places with
  | nil => rfl
  | cons place places ih =>
    rw [List.countP_cons, List.countP_cons, List.countP_cons, ih]
    rcases Nat.lt_trichotomy place p with hlt | rfl | hgt
    · simp [hlt, Nat.le_of_lt hlt, Nat.ne_of_lt hlt, Nat.add_right_comm]
    · simp [Nat.add_assoc]
    · simp [Nat.not_lt_of_gt hgt, Nat.not_le_of_gt hgt, Nat.ne_of_gt hgt]

/-- Nothing is between two offsets that follow each other. -/
theorem before_succ (g : Gaps) (p : Nat) : g.before .before (p + 1) = g.before .after p :=
  List.countP_congr fun place _ => by simp only [decide_eq_true_eq, Nat.lt_succ_iff]

theorem move_after (hnodup : places.Nodup) (gap p : Nat) :
    move ⟨places, gap⟩ .after p = move ⟨places, gap⟩ .before p + if p ∈ places then gap else 0 := by
  rw [move, move, before_after hnodup]
  split
  · rw [Nat.mul_add, Nat.mul_one, Nat.add_assoc]
  · rfl

theorem move_succ (g : Gaps) (p : Nat) : g.move .before (p + 1) = g.move .after p + 1 := by
  rw [move, move, before_succ, Nat.add_right_comm]

end Gaps

/-- Where a span with bytes goes when gaps are put in: it does not grow by those at its ends. -/
def Gaps.around (g : Gaps) (s : Span) : Span := ⟨g.move .after s.start, g.move .before s.stop⟩

theorem Gaps.around_nil (gap : Nat) (s : Span) : around ⟨[], gap⟩ s = s := by
  have hmove : ∀ bias p, move ⟨[], gap⟩ bias p = p := fun bias p => move_of_lt bias (by simp)
  rw [around, hmove, hmove]

/-- The first gap moves a span with bytes as an edit of its own. -/
theorem Gaps.around_cons {first : Nat} {others : List Nat} {gap : Nat} {s : Span} (empty : Bias)
    (h : ∀ other ∈ others, first < other) (hlt : s.start < s.stop) :
    around ⟨first :: others, gap⟩ s =
      Edit.moveSpan ⟨first, 0, gap⟩ empty (around ⟨others, gap⟩ s) := by
  have hinner : (around ⟨others, gap⟩ s).start < (around ⟨others, gap⟩ s).stop := move_lt_move hlt
  rw [Edit.moveSpan_of_lt empty hinner, around, move_cons .after _ h, move_cons .before _ h]
  rfl

/-- The front of a list is as long as where its end goes. -/
theorem length_putAt_take (hnodup : places.Nodup) {xs : List α} {n : Nat} (h : n ≤ xs.length) :
    (putAt more places 0 (xs.take n)).length = Gaps.move ⟨places, more.length⟩ .before n := by
  induction n with
  | zero =>
    have hbefore : Gaps.before ⟨places, more.length⟩ .before 0 = 0 :=
      List.countP_eq_zero.2 fun place _ => by simp
    rw [Gaps.move, hbefore]
    rfl
  | succ n ih =>
    have hlength : (xs.take n).length = n := by rw [List.length_take, Nat.min_eq_left (by omega)]
    rw [List.take_succ_eq_append_getElem h, putAt_append, hlength, List.length_append,
      ih (by omega), Nat.zero_add, Gaps.move_succ, Gaps.move_after hnodup, putAt,
      List.length_append, putAt, List.length_singleton, Nat.add_assoc]
    split <;> rfl

/-- A stretch with members has what is put strictly inside of it. -/
theorem putAt_stretch (hnodup : places.Nodup) {xs : List α} {start stop : Nat} (hlt : start < stop)
    (hle : stop ≤ xs.length) :
    let s' := Gaps.around ⟨places, more.length⟩ ⟨start, stop⟩
    ((putAt more places 0 xs).take s'.stop).drop s'.start =
      putAt more (places.filter fun p => start < p ∧ p < stop) start
        ((xs.take stop).drop start) := by
  let g : Gaps := ⟨places, more.length⟩
  show ((putAt more places 0 xs).take (g.move .before stop)).drop (g.move .after start) = _
  have hfront : (putAt more places 0 xs).take (g.move .before stop) =
      putAt more places 0 (xs.take stop) := by
    have hxs : putAt more places 0 (xs.take stop ++ xs.drop stop) = _ := putAt_append 0 _ _
    rw [List.take_append_drop] at hxs
    rw [hxs, ← length_putAt_take hnodup hle, List.take_left]
  have hstart : start < (xs.take stop).length := by
    rw [List.length_take]
    omega
  obtain ⟨x, inner, hinner⟩ : ∃ x inner, (xs.take stop).drop start = x :: inner :=
    ⟨_, _, List.drop_eq_getElem_cons hstart⟩
  have hsize : start + (x :: inner).length = stop := by
    rw [← hinner, List.length_drop, List.length_take]
    omega
  have hparts : xs.take stop = xs.take start ++ x :: inner := by
    have htaken := List.take_append_drop start (xs.take stop)
    rw [List.take_take, Nat.min_eq_left (Nat.le_of_lt hlt), hinner] at htaken
    exact htaken.symm
  have hlength : (xs.take start).length = start := by
    rw [List.length_take]
    omega
  -- What is put at the start of the stretch belongs to the part in front of it.
  have hdropped : (putAt more places 0 (xs.take start) ++
      if start ∈ places then more else []).length = g.move .after start := by
    rw [List.length_append, length_putAt_take hnodup (by omega), Gaps.move_after hnodup]
    split <;> rfl
  rw [hfront, hinner, hparts, putAt_append, hlength, Nat.zero_add, putAt, ← List.append_assoc,
    ← hdropped, List.drop_left, putAt, if_neg (by simp), List.nil_append]
  refine congrArg (x :: ·) (putAt_congr fun p hle hlt => ?_)
  rw [List.length_cons] at hsize
  rw [List.mem_filter, decide_eq_true_eq, and_iff_left (by omega)]

end Put

namespace Chunk

variable {c d other : Chunk}

/-! ### Lines of the added text -/

/-- The first line of a text has characters. -/
def BeginsLine (t : Text) : Prop := t ≠ [] ∧ ¬['\n'] <+: t ∧ ¬['\r', '\n'] <+: t

instance : DecidablePred BeginsLine := fun t =>
  inferInstanceAs (Decidable (t ≠ [] ∧ ¬['\n'] <+: t ∧ ¬['\r', '\n'] <+: t))

/-- A line with characters starts at an offset, behind a line feed. -/
def StartsLine (t : Text) (p : Nat) : Prop :=
  ∃ front rest, t = front ++ '\n' :: rest ∧ BeginsLine rest ∧ p = front.size + 1

theorem startsWithContent_iff (t : Text) : startsWithContent t = true ↔ BeginsLine t := by
  unfold startsWithContent BeginsLine
  split
  · simp
  · simp
  · simp
  · next hnil hfeed hbreak =>
    refine iff_of_true rfl ⟨hnil, ?_, ?_⟩
    · rintro ⟨rest, rfl⟩
      exact hfeed rest rfl
    · rintro ⟨rest, rfl⟩
      exact hbreak rest rfl

theorem mem_contentLineStarts_iff (offset : Nat) (t : Text) (p : Nat) :
    p ∈ contentLineStarts offset t ↔ ∃ front rest,
      t = front ++ '\n' :: rest ∧ BeginsLine rest ∧ p = offset + front.size + 1 := by
  have hfeed : '\n'.utf8Size = 1 := rfl
  induction t generalizing offset with
  | nil =>
    refine iff_of_false List.not_mem_nil ?_
    rintro ⟨front, rest, hnil, -⟩
    exact absurd hnil.symm (List.append_ne_nil_of_right_ne_nil _ (List.cons_ne_nil _ _))
  | cons x t ih =>
    rw [contentLineStarts_cons, List.mem_append]
    refine (or_congr_right (ih (offset + x.utf8Size))).trans ?_
    constructor
    · rintro (hfirst | ⟨front, rest, rfl, hbegins, rfl⟩)
      · split at hfirst
        · next hcontent =>
          obtain ⟨hx, hstarts⟩ := Bool.and_eq_true_iff.1 hcontent
          obtain rfl : x = '\n' := of_decide_eq_true hx
          exact ⟨[], t, rfl, (startsWithContent_iff t).1 hstarts, List.mem_singleton.1 hfirst⟩
        · exact absurd hfirst List.not_mem_nil
      · refine ⟨x :: front, rest, rfl, hbegins, ?_⟩
        rw [Text.size_cons]
        omega
    · rintro ⟨front, rest, htext, hbegins, rfl⟩
      cases front with
      | nil =>
        obtain ⟨rfl, rfl⟩ := List.cons.inj htext
        have hcontent := (startsWithContent_iff t).2 hbegins
        rw [hcontent, hfeed]
        exact .inl List.mem_cons_self
      | cons y front =>
        obtain ⟨rfl, rfl⟩ := List.cons.inj htext
        refine .inr ⟨front, rest, rfl, hbegins, ?_⟩
        rw [Text.size_cons]
        omega

/-- The places where the indentation of a chunk goes are those where lines with characters start. -/
theorem mem_contentLineStarts_zero_iff (t : Text) (p : Nat) :
    p ∈ contentLineStarts 0 t ↔ StartsLine t p := by
  rw [mem_contentLineStarts_iff]
  simp only [Nat.zero_add]
  rfl

/-- No line starts in front of the second character. -/
theorem contentLineStarts_cons_of_lt {offset p : Nat} {x : Char} {t : Text}
    (h : p < offset + x.utf8Size) : p ∉ contentLineStarts offset (x :: t) := by
  intro hmem
  rw [contentLineStarts_cons, List.mem_append] at hmem
  rcases hmem with hfirst | hlater
  · split at hfirst
    · have hp := List.mem_singleton.1 hfirst
      omega
    · exact absurd hfirst List.not_mem_nil
  · have hlt := ((contentLineStarts_lt _ t).1 p hlater).1
    omega

/-- On the bytes, indenting puts the indentation where lines with characters start. -/
theorem bytes_indented (indentation : Text) (offset : Nat) (t : Text) :
    (indented indentation t).bytes =
      putAt indentation.bytes (contentLineStarts offset t) offset t.bytes := by
  induction t generalizing offset with
  | nil => rfl
  | cons x t ih =>
    have hlength : (String.utf8EncodeChar x).length = x.utf8Size := String.length_utf8EncodeChar x
    have hfirst : putAt indentation.bytes (contentLineStarts offset (x :: t)) offset
        (String.utf8EncodeChar x) = String.utf8EncodeChar x :=
      putAt_of_not_mem fun p _ hlt => contentLineStarts_cons_of_lt (hlength ▸ hlt)
    rw [indented_cons, Text.bytes_cons, Text.bytes_cons, putAt_append, hfirst, hlength,
      Text.bytes_append, ih (offset + x.utf8Size), contentLineStarts_cons]
    split
    · next hcontent =>
      have hne : Text.bytes t ≠ [] := by
        intro hnil
        have hsize : Text.size t = 0 := by rw [← Text.length_bytes, hnil, List.length_nil]
        rw [Text.size_eq_zero.1 hsize] at hcontent
        simp [startsWithContent] at hcontent
      have hbehind : offset + x.utf8Size ∉ contentLineStarts (offset + x.utf8Size) t :=
        fun hmem => Nat.lt_irrefl _ ((contentLineStarts_lt _ t).1 _ hmem).1
      rw [List.singleton_append, putAt_cons_self hne hbehind]
    · rfl

theorem head?_indented (indentation t : Text) : (indented indentation t).head? = t.head? := by
  cases t with
  | nil => rfl
  | cons x t =>
    rw [indented_cons]
    rfl

/-- Indentation is not put in front of the first line. -/
theorem startsWithContent_indented (indentation t : Text) :
    startsWithContent (indented indentation t) = startsWithContent t := by
  cases t with
  | nil => rfl
  | cons x t =>
    rw [indented_cons]
    by_cases hx : x = '\r'
    · subst hx
      have hhead := head?_indented indentation t
      cases t with
      | nil => rfl
      | cons y t =>
        rw [indented_cons]
        unfold startsWithContent
        grind
    · unfold startsWithContent
      grind

/-! ### Recorded spans -/

/-- A text that is put at some places, the last first, moves what has ended with some bytes around
the gaps. -/
theorem getElem?_foldr_splice (t : Text) {places : List Nat} (hsorted : places.Pairwise (· < ·)) :
    let sum := places.foldr (fun place d => d.splice place place t) c
    let g : Gaps := ⟨places, t.size⟩
    (∀ (index : Nat) (origin : Origin) (s : Span),
        c.mappings[index]? = some ⟨origin, .closed s⟩ → s.start < s.stop →
        sum.mappings[index]? = some ⟨origin, .closed (g.around s)⟩) ∧
      ∀ (index : Nat) (name : Text) (s : Span),
        c.located[index]? = some (name, s) → s.start < s.stop →
        sum.located[index]? = some (name, g.around s) := by
  induction places with
  | nil =>
    intro sum g
    refine ⟨fun index origin s hs _ => ?_, fun index name s hs _ => ?_⟩
    · rw [Gaps.around_nil]
      exact hs
    · rw [Gaps.around_nil]
      exact hs
  | cons first others ih =>
    obtain ⟨hfirst, hothers⟩ := List.pairwise_cons.1 hsorted
    obtain ⟨hmappings, hlocated⟩ := ih hothers
    have hforward {s : Span} (hlt : s.start < s.stop) :
        (Gaps.around ⟨others, t.size⟩ s).start ≤ (Gaps.around ⟨others, t.size⟩ s).stop :=
      Nat.le_of_lt (Gaps.move_lt_move hlt)
    intro sum g
    refine ⟨fun index origin s hs hlt => ?_, fun index name s hs hlt => ?_⟩
    · obtain ⟨empty, hmoved⟩ : ∃ empty, sum.mappings[index]? = some
          (Mapping.move ⟨first, first - first, t.size⟩ empty
            ⟨origin, .closed (Gaps.around ⟨others, t.size⟩ s)⟩) :=
        getElem?_mappings_splice t (hmappings index origin s hs hlt) (hforward hlt)
      rw [Nat.sub_self, Mapping.move, Extent.move, ← Gaps.around_cons empty hfirst hlt] at hmoved
      exact hmoved
    · obtain ⟨empty, hmoved⟩ : ∃ empty, sum.located[index]? = some (name,
          Edit.moveSpan ⟨first, first - first, t.size⟩ empty (Gaps.around ⟨others, t.size⟩ s)) :=
        getElem?_located_splice t (hlocated index name s hs hlt) (hforward hlt)
      rw [Nat.sub_self, ← Gaps.around_cons empty hfirst hlt] at hmoved
      exact hmoved

/-- A span with bytes goes on with the indentations of the lines that start strictly inside of
it. -/
theorem bytesIn_around (indentation : Text) {t : Text} {s : Span} (hlt : s.start < s.stop)
    (hle : s.stop ≤ t.size) :
    (indented indentation t).bytesIn ((lineGaps indentation.size t).around s) =
      putAt indentation.bytes
        ((contentLineStarts 0 t).filter fun p => s.start < p ∧ p < s.stop) s.start
        (t.bytesIn s) := by
  have hnodup : (contentLineStarts 0 t).Nodup :=
    (contentLineStarts_lt 0 t).2.imp fun hlt => Nat.ne_of_lt hlt
  have hbytes : s.stop ≤ t.bytes.length := by rwa [Text.length_bytes]
  have hstretch := @putAt_stretch _ indentation.bytes _ hnodup _ _ _ hlt hbytes
  rwa [Text.length_bytes, ← bytes_indented] at hstretch

/-- A text behind another has the same bytes further on. -/
theorem bytesIn_shift (t u : Text) (s : Span) :
    Text.bytesIn (t ++ u) (s.shift t.size) = Text.bytesIn u s := by
  have hlength : t.bytes.length = t.size := Text.length_bytes t
  rw [Text.bytesIn, Text.bytesIn, Text.bytes_append, Span.stop_shift, Span.start_shift,
    Nat.add_comm s.stop, Nat.add_comm s.start, ← hlength, List.take_length_add_append,
    List.drop_length_add_append]

/-- How a span with bytes goes on when the lines of its text are indented and put into another text:
its bytes have an indentation in front of every line with characters that starts strictly inside of
it. -/
structure Reindents (indentation t sum : Text) (s s' : Span) : Prop where
  within : SpanWithin sum.size s'
  bytesIn_eq : sum.bytesIn s' = putAt indentation.bytes
    ((contentLineStarts 0 t).filter fun p => s.start < p ∧ p < s.stop) s.start (t.bytesIn s)

theorem reindents_around (indentation front : Text) {t : Text} {s : Span} (hlt : s.start < s.stop)
    (hle : s.stop ≤ t.size) :
    Reindents indentation t (front ++ indented indentation t) s
      (((lineGaps indentation.size t).around s).shift front.size) := by
  let g := lineGaps indentation.size t
  have hplaces : ∀ place ∈ g.places, place < t.size := places_lineGaps_lt indentation.size t
  have hend : g.move .before t.size = Text.size (indented indentation t) :=
    move_size_lineGaps indentation .before t
  have hstop : g.move .before s.stop ≤ Text.size (indented indentation t) := by
    rw [← hend]
    rcases Nat.lt_or_eq_of_le hle with hlt | heq
    · rw [Gaps.move_of_le .before hplaces (Nat.le_refl _)]
      exact Nat.le_of_lt (Gaps.move_lt .before hplaces hlt)
    · exact Nat.le_of_eq (congrArg _ heq)
  have hforward : g.move .after s.start ≤ g.move .before s.stop :=
    Nat.le_of_lt (Gaps.move_lt_move hlt)
  refine ⟨⟨Nat.add_le_add_right hforward _, ?_⟩, ?_⟩
  · rw [Text.size_append, Nat.add_comm front.size]
    exact Nat.add_le_add_right hstop _
  · rw [bytesIn_shift, bytesIn_around indentation hlt hle]

/-! ### The receiver -/

/-- A chunk with the indentation that it is owed, if a text begins with a line that has
characters. -/
def begun (t : Text) (c : Chunk) : Chunk :=
  if c.atLineStart && startsWithContent t then c.writeIndent else c

theorem text_begun (t : Text) (c : Chunk) :
    (c.begun t).text = c.text ++
      if c.atLineStart = true ∧ BeginsLine t then c.indentText (c.indentation + c.carried)
      else [] := by
  rw [begun]
  simp only [Bool.and_eq_true, startsWithContent_iff]
  split
  · exact text_writeIndent c
  · exact (List.append_nil _).symm

theorem length_begun (t : Text) (c : Chunk) :
    (c.begun t).mappings.length = c.mappings.length ∧
      (c.begun t).located.length = c.located.length := by
  rw [begun]
  split
  · rw [writeIndent, splice_eq]
    dsimp only
    constructor <;> split <;> simp only [List.length_map]
  · exact ⟨rfl, rfl⟩

theorem Grows.begun (t : Text) (c : Chunk) : Grows c (c.begun t) := by
  rw [Chunk.begun]
  split
  · exact .writeIndent c
  · exact .refl c

/-- What an added chunk is put behind, and how. -/
theorem recorded_add (c other : Chunk) :
    let sub := other.closeAll.indentLines (c.indentText c.indentation)
    let base := c.begun other.text
    (c.add other).text = base.text ++ sub.text ∧
      (c.add other).mappings = base.mappings ++ sub.mappings.map (Mapping.shift base.size) ∧
      (c.add other).located =
        base.located ++ sub.located.map fun l => (l.1, l.2.shift base.size) := by
  intro sub base
  have hstarts : startsWithContent sub.text = startsWithContent other.text := by
    rw [text_indentLines]
    exact startsWithContent_indented _ _
  have hadd : c.add other = (base.join sub).inheritLine sub := by
    rw [Chunk.add, hstarts]
    rfl
  rw [hadd, inheritLine]
  split <;> exact ⟨rfl, rfl, rfl⟩

theorem Grows.add (c other : Chunk) : Grows c (c.add other) := by
  obtain ⟨htext, hmappings, hlocated⟩ := recorded_add c other
  have hsum : Grows (c.begun other.text) (c.add other) := by
    refine ⟨⟨_, htext.symm⟩, fun index origin s hs _ _ => ?_, fun index name s hs _ _ => ?_⟩
    · rw [hmappings, List.getElem?_append_left (List.getElem?_eq_some_iff.1 hs).1]
      exact hs
    · rw [hlocated, List.getElem?_append_left (List.getElem?_eq_some_iff.1 hs).1]
      exact hs
  exact (Grows.begun other.text c).trans hsum

theorem text_add (c other : Chunk) :
    (c.add other).text =
      (c.begun other.text).text ++ indented (c.indentText c.indentation) other.text := by
  obtain ⟨htext, -, -⟩ := recorded_add c other
  rw [htext, text_indentLines]
  rfl

/-- Where a span with bytes goes when its chunk is added: around the indentations of its lines, and
behind the receiver. -/
def added (c other : Chunk) (s : Span) : Span :=
  ((lineGaps (c.indentText c.indentation).size other.text).around s).shift
    (c.begun other.text).size

theorem reindents_added (c : Chunk) {other : Chunk} {s : Span} (hlt : s.start < s.stop)
    (hle : s.stop ≤ other.size) :
    Reindents (c.indentText c.indentation) other.text (c.add other).text s (c.added other s) := by
  rw [text_add]
  exact reindents_around _ _ hlt hle

/-- The mappings of an added chunk are behind those of the receiver. -/
theorem getElem?_mappings_add (c : Chunk) {other : Chunk} {index : Nat} {m : Mapping}
    (hm : other.mappings[index]? = some m)
    (hlt : (m.extent.span other.size).start < (m.extent.span other.size).stop) :
    (c.add other).mappings[c.mappings.length + index]? =
      some ⟨m.origin, .closed (c.added other (m.extent.span other.size))⟩ := by
  obtain ⟨-, hmappings, -⟩ := recorded_add c other
  obtain ⟨hspread, -⟩ := getElem?_foldr_splice (c := other.closeAll) (c.indentText c.indentation)
    (contentLineStarts_lt 0 other.text).2
  have hclosed : other.closeAll.mappings[index]? =
      some ⟨m.origin, .closed (m.extent.span other.size)⟩ := by
    rw [closeAll, List.getElem?_map, hm]
    rfl
  rw [hmappings, ← (length_begun other.text c).1, List.getElem?_append_right (Nat.le_add_right _ _),
    Nat.add_sub_cancel_left, List.getElem?_map]
  exact congrArg (Option.map (Mapping.shift _)) (hspread index m.origin _ hclosed hlt)

/-- The located parts of an added chunk are behind those of the receiver. -/
theorem getElem?_located_add (c : Chunk) {other : Chunk} {index : Nat} {name : Text} {s : Span}
    (hs : other.located[index]? = some (name, s)) (hlt : s.start < s.stop) :
    (c.add other).located[c.located.length + index]? = some (name, c.added other s) := by
  obtain ⟨-, -, hlocated⟩ := recorded_add c other
  obtain ⟨-, hspread⟩ := getElem?_foldr_splice (c := other.closeAll) (c.indentText c.indentation)
    (contentLineStarts_lt 0 other.text).2
  rw [hlocated, ← (length_begun other.text c).2, List.getElem?_append_right (Nat.le_add_right _ _),
    Nat.add_sub_cancel_left, List.getElem?_map]
  exact congrArg (Option.map fun l : Text × Span => (l.1, l.2.shift (c.begun other.text).size))
    (hspread index name s hs hlt)

/-- A chunk that is added goes behind the receiver and the indentation that its first line is owed,
with an indentation in front of every later line that has characters. What it records with some
bytes goes on with these, and with the indentations of the lines that start strictly inside of it;
what is still open ends at its end. What has ended in the receiver with some bytes stays. -/
theorem add_reindents (hc : c.Reachable) (hother : other.Reachable) :
    let indentation := c.indentText c.indentation
    let starts := contentLineStarts 0 other.text
    let sum := c.add other
    (∀ p, p ∈ starts ↔ StartsLine other.text p) ∧
      (indented indentation other.text).bytes =
        putAt indentation.bytes starts 0 other.text.bytes ∧
      sum.text = c.text ++
        (if c.atLineStart = true ∧ BeginsLine other.text
          then c.indentText (c.indentation + c.carried) else []) ++
        indented indentation other.text ∧
      (∀ (index : Nat) (m : Mapping), other.mappings[index]? = some m →
        let s := m.extent.span other.size
        s.start < s.stop →
        ∃ s', sum.mappings[c.mappings.length + index]? = some ⟨m.origin, .closed s'⟩ ∧
          Reindents indentation other.text sum.text s s') ∧
      (∀ (index : Nat) (name : Text) (s : Span), other.located[index]? = some (name, s) →
        s.start < s.stop →
        ∃ s', sum.located[c.located.length + index]? = some (name, s') ∧
          Reindents indentation other.text sum.text s s') ∧
      c.KeepsEnded sum := by
  intro indentation starts sum
  refine ⟨mem_contentLineStarts_zero_iff other.text, bytes_indented _ _ _, ?_, ?_, ?_,
    (Grows.add c other).keepsEnded hc⟩
  · rw [← text_begun]
    exact text_add c other
  · intro index m hm s hlt
    have hwithin : s.stop ≤ other.size :=
      ((hother.bounded m (List.mem_of_getElem? hm)).close).2
    exact ⟨_, getElem?_mappings_add c hm hlt, reindents_added c hlt hwithin⟩
  · intro index name s hs hlt
    have hwithin : s.stop ≤ other.size :=
      (hother.tidy.located _ (List.mem_of_getElem? hs)).resolve_left (Nat.ne_of_lt hlt)
    exact ⟨_, getElem?_located_add c hs hlt, reindents_added c hlt hwithin⟩

/-- A text with an open mapping and a located part, into which a character is put afterwards, is
added at the start of an indented line. -/
theorem add_reindents_edited :
    let origin : Origin := { span := ⟨0, 2⟩ }
    let c := (({} : Chunk).appendMapped ['a', '\n'] origin).indent 1
    let written := (({} : Chunk).append ['x']).openMapping origin
    let located : Chunk := Id.run (written.locating ['n'] (append ['\n', '\n', 'y', '\n', 'z']))
    let other := located.insert 0 ['w']
    let sum := c.add other
    c.Reachable ∧ other.Reachable ∧ sum.text = "a\n  wx\n\n  y\n  z".toList ∧
      (∃ s', sum.mappings[1]? = some ⟨origin, .closed s'⟩ ∧
        sum.text.bytesIn s' = Text.bytes ['\n', '\n', ' ', ' ', 'y', '\n', ' ', ' ', 'z']) ∧
      (∃ s', sum.located[0]? = some (['n'], s') ∧
        sum.text.bytesIn s' = Text.bytes ['\n', '\n', ' ', ' ', 'y', '\n', ' ', ' ', 'z']) ∧
      sum.mappings[0]? = some ⟨origin, .closed ⟨0, 2⟩⟩ := by
  intro origin c written located other sum
  have hc : c.Reachable :=
    ⟨{}, ((((Run.refl _).openMapping origin).append _).closeMapping _).indent 1⟩
  have hwritten : Run {} written := ((Run.refl _).append _).openMapping origin
  have hlocated : Run {} located :=
    .locating ['n'] (append ['\n', '\n', 'y', '\n', 'z']) hwritten ((Run.refl _).append _)
  have hother : other.Reachable := ⟨{}, hlocated.insert 0 ['w']⟩
  obtain ⟨-, -, htext, hmappings, hnamed, hkept⟩ := add_reindents hc hother
  obtain ⟨s, hs, hspan⟩ := hmappings 0 ⟨origin, .running 2⟩ (by decide) (by decide)
  obtain ⟨s', hs', hspan'⟩ := hnamed 0 ['n'] ⟨2, 7⟩ (by decide) (by decide)
  have hkept' := (hkept.mappings 0 origin ⟨0, 2⟩ (by decide) (by decide)).1
  refine ⟨hc, hother, htext.trans ?_, ⟨s, hs, ?_⟩, ⟨s', hs', ?_⟩, hkept'⟩
  · decide
  · rw [hspan.bytesIn_eq]
    decide
  · rw [hspan'.bytesIn_eq]
    decide

end Chunk

end BoundTemplate.Output
