import BoundTemplate.Proofs.Binding.List

/-!
# How a list is cut into entries

A comma cuts a list exactly if nothing is open where it stands, and then the entries of the list
are those of what stands in front of the comma, followed by those of what stands behind it. All
that no entry holds is therefore such commas and the blanks around them.
-/

namespace BoundTemplate

/-! ### Where a character of an excerpt stands -/

/-- A character of a text in two parts stands at a place of the first or of the second. -/
theorem Text.exists_of_append_eq {front rest before behind : Text} {c : Char}
    (h : front ++ rest = before ++ c :: behind) :
    (∃ between, front = before ++ c :: between) ∨
      ∃ between, before = front ++ between ∧ rest = between ++ c :: behind := by
  rcases List.append_eq_append_iff.1 h with ⟨between, hbefore, hrest⟩ | ⟨between, hfront, hbehind⟩
  · exact .inr ⟨between, hbefore, hrest⟩
  · cases between with
    | nil => exact .inr ⟨[], by simpa using hfront.symm, hbehind.symm⟩
    | cons d between =>
      obtain ⟨rfl, -⟩ := List.cons.inj hbehind
      exact .inl ⟨between, hfront⟩

namespace Excerpt

/-- An excerpt covers a place if it has the byte behind it. -/
def Covers (e : Excerpt) (place : Nat) : Prop := e.offset ≤ place ∧ place < e.stop

variable {e : Excerpt} {before behind : Text} {c : Char}

theorem covers_of_text_eq (h : e.text = before ++ c :: behind) :
    e.Covers (e.offset + before.size) := by
  have hpos := c.utf8Size_pos
  refine ⟨Nat.le_add_right _ _, ?_⟩
  rw [stop, h, Text.size_append, Text.size_cons]
  omega

theorem Covers.text_ne_nil {place : Nat} (h : e.Covers place) : e.text ≠ [] := by
  obtain ⟨hstart, hstop⟩ := h
  intro hnil
  rw [stop, hnil, Text.size_nil] at hstop
  omega

/-- A character that trimming removes is a blank. -/
theorem blank_or_covers_trim (h : e.text = before ++ c :: behind) :
    isBlank c = true ∨ e.trim.Covers (e.offset + before.size) := by
  have hfront := Text.takeWhile_append_trimStart e.text
  obtain ⟨blanks, hblanks, hback⟩ := Text.exists_trimEnd_append e.text.trimStart
  rcases Text.exists_of_append_eq (hfront.trans h) with ⟨between, hlead⟩ | ⟨between, rfl, hrest⟩
  · exact .inl (Text.blank_takeWhile e.text c (by rw [hlead]; simp))
  · rcases Text.exists_of_append_eq (hback.trans hrest) with ⟨inner, hinner⟩ | ⟨inner, -, htrail⟩
    · have hcovers : e.trim.Covers (e.trim.offset + between.size) :=
        covers_of_text_eq (by rw [trim, trimEnd, text_trimStart, hinner])
      have hoffset : e.trim.offset = e.offset + Text.size (e.text.takeWhile isBlank) := by
        rw [trim, trimEnd, trimStart, drop,
          ← List.prefix_iff_eq_take.1 (List.takeWhile_prefix isBlank)]
      rw [hoffset, Nat.add_assoc, ← Text.size_append] at hcovers
      exact .inr hcovers
    · exact .inl (hblanks c (by rw [htrail]; simp))

theorem trim_shift (e : Excerpt) (delta : Nat) : (e.shift delta).trim = e.trim.shift delta := by
  simp only [trim, trimStart, drop, trimEnd, shift, Excerpt.mk.injEq, and_true]
  omega

end Excerpt

namespace Binding

namespace Nesting

variable {n : Nesting} {c : Char}

/-- No quote and no bracket is open, so a comma separates. -/
def IsClosed (n : Nesting) : Prop := n.quote = .none ∧ n.depth = 0

instance (n : Nesting) : Decidable n.IsClosed := inferInstanceAs (Decidable (_ ∧ _))

theorem separates_iff : n.separates c = true ↔ c = ',' ∧ n.IsClosed := by
  simp only [separates, IsClosed, Bool.and_eq_true, beq_iff_eq, Option.isNone_iff_eq_none,
    and_assoc]

/-- Nothing is escaped outside of quotes. -/
theorem escaped_step (h : n.quote = .none → n.escaped = false) (c : Char) :
    (n.step c).quote = .none → (n.step c).escaped = false := by
  fun_cases step n c <;> simp_all

theorem escaped_after (h : n.quote = .none → n.escaped = false) (s : Text) :
    (n.after s).quote = .none → (n.after s).escaped = false := by
  induction s generalizing n with
  | nil => exact h
  | cons c s ih => exact ih (escaped_step h c)

/-- Where nothing is open a list may begin. -/
theorem after_none_eq_none_iff {s : Text} :
    Nesting.none.after s = .none ↔ (Nesting.none.after s).IsClosed := by
  refine ⟨fun h => by rw [h]; exact ⟨rfl, rfl⟩, fun ⟨hquote, hdepth⟩ => ?_⟩
  have hescaped := escaped_after (fun _ => rfl) s hquote
  generalize Nesting.none.after s = n at *
  obtain ⟨depth, quote, escaped⟩ := n
  cases hquote
  cases hdepth
  cases hescaped
  rfl

end Nesting

/-! ### The cut behind a text -/

theorem consFirst_append {c : Char} {parts : List Text} (hne : parts ≠ []) (others : List Text) :
    consFirst c (parts ++ others) = consFirst c parts ++ others := by
  cases parts with
  | nil => exact absurd rfl hne
  | cons part parts => rfl

/-- A comma cuts behind a text if nothing is open there. -/
theorem pieces_append_comma {n : Nesting} {s : Text} (hafter : n.after s = .none) (t : Text) :
    pieces n (s ++ ',' :: t) = pieces n s ++ pieces .none t := by
  induction s generalizing n with
  | nil =>
    have hn : n = .none := hafter
    subst hn
    exact if_pos rfl
  | cons c s ih =>
    rw [List.cons_append, pieces, pieces]
    split
    · next hseparates =>
      rw [Nesting.after, List.foldl_cons, Nesting.step_of_separates hseparates] at hafter
      rw [ih hafter]
      rfl
    · rw [ih hafter, consFirst_append (pieces_ne_nil _ s)]

theorem place_append {parts : List Text} (hne : parts ≠ []) (offset : Nat) (others : List Text) :
    place offset (parts ++ others) = place offset parts ++
      place (offset + Text.size ([','].intercalate parts) + 1) others := by
  induction parts generalizing offset with
  | nil => exact absurd rfl hne
  | cons part parts ih =>
    cases parts with
    | nil => simp [place, List.intercalate]
    | cons next parts =>
      have hoffset : offset + part.size + 1 + Text.size ([','].intercalate (next :: parts)) + 1 =
          offset + Text.size ([','].intercalate (part :: next :: parts)) + 1 := by
        have hcomma : Text.size [','] = 1 := rfl
        rw [List.intercalate_cons_cons, Text.size_append, Text.size_append, hcomma]
        omega
      rw [List.cons_append, place, ih (List.cons_ne_nil _ _), hoffset]
      rfl

theorem place_shift (offset delta : Nat) (parts : List Text) :
    place (offset + delta) parts = (place offset parts).map (·.shift delta) := by
  induction parts generalizing offset with
  | nil => rfl
  | cons part parts ih =>
    rw [place, place, List.map_cons, ← ih, Excerpt.shift]
    congr 2
    omega

theorem entries_append_comma {s : Text} (hs : Nesting.none.after s = .none) (offset : Nat)
    (t : Text) : entries ⟨offset, s ++ ',' :: t⟩ =
      entries ⟨offset, s⟩ ++ entries ⟨offset + s.size + 1, t⟩ := by
  simp only [entries]
  rw [pieces_append_comma hs, place_append (pieces_ne_nil _ s), intercalate_pieces, List.map_append,
    List.filter_append]

theorem entries_shift (offset delta : Nat) (t : Text) :
    entries ⟨offset + delta, t⟩ = (entries ⟨offset, t⟩).map (·.shift delta) := by
  simp only [entries]
  have htrim : Excerpt.trim ∘ (·.shift delta) = (·.shift delta) ∘ Excerpt.trim :=
    funext fun e => e.trim_shift delta
  rw [place_shift, List.map_map, htrim, ← List.map_map, List.filter_map]
  rfl

/-! ### What entries cover -/

/-- A character that does not separate belongs to the piece that it stands in. -/
theorem exists_piece_of_not_separates {n : Nesting} {before behind : Text} {c : Char}
    (h : (n.after before).separates c = false) (offset : Nat) :
    ∃ e ∈ place offset (pieces n (before ++ c :: behind)), ∃ front back,
      e.text = front ++ c :: back ∧ e.offset + front.size = offset + before.size := by
  induction before generalizing n offset with
  | nil =>
    have hc : n.separates c = false := h
    obtain ⟨first, others, hfirst⟩ := List.exists_cons_of_ne_nil (pieces_ne_nil (n.step c) behind)
    rw [List.nil_append, pieces, if_neg (by rw [hc]; decide), hfirst]
    exact ⟨⟨offset, c :: first⟩, List.mem_cons_self, [], first, rfl, rfl⟩
  | cons d before ih =>
    rw [List.cons_append, pieces]
    split
    · next hd =>
      rw [Nesting.after, List.foldl_cons, Nesting.step_of_separates hd] at h
      obtain ⟨rfl, -⟩ := Nesting.separates_iff.1 hd
      obtain ⟨e, he, front, back, htext, hplace⟩ := ih h (offset + 1)
      exact ⟨e, List.mem_cons_of_mem _ he, front, back, htext,
        hplace.trans (Nat.add_assoc offset 1 (Text.size before))⟩
    · -- The piece of `d` and what stands behind it is longer by `d` than what stands behind it.
      obtain ⟨e, he, front, back, htext, hplace⟩ := ih h (offset + d.utf8Size)
      obtain ⟨first, others, hfirst⟩ :=
        List.exists_cons_of_ne_nil (pieces_ne_nil (n.step d) (before ++ c :: behind))
      rw [hfirst] at he ⊢
      rw [Nat.add_assoc] at hplace
      rcases List.mem_cons.1 he with rfl | he
      · refine ⟨⟨offset, d :: first⟩, List.mem_cons_self, d :: front, back, ?_, ?_⟩
        · exact congrArg (d :: ·) htext
        · rw [← Text.size_cons] at hplace
          simp only [Text.size_cons] at hplace ⊢
          omega
      · refine ⟨e, List.mem_cons_of_mem _ ?_, front, back, htext, hplace⟩
        rwa [Nat.add_assoc offset] at he

/-- An entry stands in the list, with no blank at either end. -/
theorem entry_spec {offset : Nat} {t : Text} {e : Excerpt} (he : e ∈ entries ⟨offset, t⟩) :
    e.text ≠ [] ∧ e.text.StartsSolid ∧ e.text.EndsSolid := by
  obtain ⟨hmem, hne⟩ := List.mem_filter.1 he
  obtain ⟨piece, -, rfl⟩ := List.mem_map.1 hmem
  have htext : piece.trim.text = piece.text.trimStart.trimEnd := by
    rw [Excerpt.trim, Excerpt.trimEnd, Excerpt.text_trimStart]
  refine ⟨by simpa using hne, ?_, ?_⟩
  · rw [htext]
    exact (Text.startsSolid_trimStart _).trimEnd
  · rw [htext]
    exact Text.endsSolid_trimEnd _

/-- A character that no entry covers is a blank or separates. -/
theorem exists_entry_or_blank {before behind : Text} {c : Char} (offset : Nat)
    (h : (Nesting.none.after before).separates c = false) :
    (∃ e ∈ entries ⟨offset, before ++ c :: behind⟩, e.Covers (offset + before.size)) ∨
      isBlank c = true := by
  obtain ⟨piece, hpiece, front, back, htext, hplace⟩ :=
    exists_piece_of_not_separates h offset
  rcases Excerpt.blank_or_covers_trim htext with hblank | hcovers
  · exact .inr hblank
  · rw [hplace] at hcovers
    refine .inl ⟨piece.trim, List.mem_filter.2 ⟨List.mem_map_of_mem hpiece, ?_⟩, hcovers⟩
    simpa using hcovers.text_ne_nil

/-- No entry covers a comma that separates. -/
theorem not_covers_comma {before : Text} (h : Nesting.none.after before = .none) (offset : Nat)
    (behind : Text) :
    ∀ e ∈ entries ⟨offset, before ++ ',' :: behind⟩, ¬e.Covers (offset + before.size) := by
  rw [entries_append_comma h]
  rintro e he ⟨hstart, hstop⟩
  rcases List.mem_append.1 he with he | he
  · have hbounds := ((entries_spec _).1 e he).bounds.2
    simp only [Excerpt.stop] at hstop hbounds
    omega
  · have hbounds := ((entries_spec _).1 e he).bounds.1
    simp only at hbounds
    omega

/-- The entries of a list stand in it one behind the other, with no blank at either end. A character
that none of them covers is a blank, or a comma where nothing is open, and such a comma none of
them covers: behind it the list is cut as if it began there. -/
theorem entries_split_at_commas (t : Text) :
    (entries ⟨0, t⟩).Pairwise (fun e e' => e.stop < e'.offset) ∧
      (∀ e ∈ entries ⟨0, t⟩, t.Holds e.span e.text ∧ e.text ≠ [] ∧
        e.text.StartsSolid ∧ e.text.EndsSolid) ∧
      (∀ before c behind, t = before ++ c :: behind →
        (∃ e ∈ entries ⟨0, t⟩, e.Covers before.size) ∨ isBlank c = true ∨
          c = ',' ∧ (Nesting.none.after before).IsClosed) ∧
      (∀ before behind, t = before ++ ',' :: behind → (Nesting.none.after before).IsClosed →
        ∀ e ∈ entries ⟨0, t⟩, ¬e.Covers before.size) ∧
      ∀ s : Text, (Nesting.none.after s).IsClosed →
        entries ⟨0, s ++ ',' :: t⟩ =
          entries ⟨0, s⟩ ++ (entries ⟨0, t⟩).map (·.shift (s.size + 1)) := by
  obtain ⟨hcontains, hsorted⟩ := entries_spec ⟨0, t⟩
  have hlist : t.Holds (Excerpt.span ⟨0, t⟩) t := ⟨[], [], (List.append_nil t).symm, rfl⟩
  refine ⟨hsorted, fun e he => ⟨(hcontains e he).holds hlist, entry_spec he⟩, ?_, ?_, ?_⟩
  · rintro before c behind rfl
    rcases hc : (Nesting.none.after before).separates c
    · rw [← Nat.zero_add (Text.size before)]
      exact (exists_entry_or_blank 0 hc).imp_right .inl
    · exact .inr (.inr (Nesting.separates_iff.1 hc))
  · rintro before behind rfl hclosed
    have h := not_covers_comma (Nesting.after_none_eq_none_iff.2 hclosed) 0 behind
    rwa [Nat.zero_add] at h
  · intro s hclosed
    rw [entries_append_comma (Nesting.after_none_eq_none_iff.2 hclosed), ← entries_shift]
    simp only [Nat.zero_add]

/-- Commas in brackets and in quotes do not separate, also behind a quote that is escaped, and a
bracket that closes nothing opens nothing. -/
theorem entries_split_at_commas_nested :
    let s : Text := ")f(a, b), '\\',c' ".toList
    let t : Text := " d".toList
    (Nesting.none.after s).IsClosed ∧
      entries ⟨0, s ++ ',' :: t⟩ =
        [⟨0, ")f(a, b)".toList⟩, ⟨10, "'\\',c'".toList⟩, ⟨19, "d".toList⟩] ∧
      (∃ e ∈ entries ⟨0, s⟩, e.Covers 4) ∧
      (∀ e ∈ entries ⟨0, s⟩, ¬e.Covers 8) := by
  intro s t
  have hs : (Nesting.none.after s).IsClosed := by decide
  have htail : entries ⟨0, t⟩ = [⟨1, "d".toList⟩] := by decide +kernel
  have hhead : entries ⟨0, s⟩ = [⟨0, ")f(a, b)".toList⟩, ⟨10, "'\\',c'".toList⟩] := by
    decide +kernel
  obtain ⟨-, -, hcover, hcut, -⟩ := entries_split_at_commas s
  obtain ⟨-, -, -, -, hjoin⟩ := entries_split_at_commas t
  refine ⟨hs, ?_, ?_, ?_⟩
  · rw [hjoin s hs, hhead, htail]
    rfl
  · rcases hcover ")f(a".toList ',' " b), '\\',c' ".toList rfl with hentry | hblank | ⟨-, hclosed⟩
    · exact hentry
    · exact absurd hblank (by decide)
    · exact absurd hclosed (by decide)
  · exact hcut ")f(a, b)".toList " '\\',c' ".toList rfl (by decide)

end Binding

end BoundTemplate
