import BoundTemplate.Proofs.Directive.Completion
import BoundTemplate.Proofs.Template.Reading

/-!
# Directives that are read without an error

An import clause is read exactly where one is spelled, and it says what its only spelling
says. A directive is read without an error exactly if it has a name, a colon and, where the
name asks for one, an import clause.
-/

namespace BoundTemplate.Directive

variable {offset : Nat} {t : Text}

/-! ### Clauses -/

/-- A text is spelled in one way at most. -/
theorem Spelling.Spells.unique {s s' : Spelling} (h : s.Spells t) (h' : s'.Spells t) : s = s' := by
  obtain ⟨hhead, hfrom⟩ := h.head.unique h'.head (Head.ends_from _ _) (Head.ends_from _ _)
    (isWord_from.startsSolid _) (isWord_from.startsSolid _) (h.text_eq.trans h'.text_eq.symm)
  obtain ⟨hinner, hliteral⟩ := h.blank_inner.append_inj
    (startsSolid_literal h.quote (s.content ++ s.mark :: s.back)) h'.blank_inner
    (startsSolid_literal h'.quote (s'.content ++ s'.mark :: s'.back))
    (List.append_cancel_left hfrom)
  obtain ⟨hmark, hrest⟩ := List.cons.inj hliteral
  have hquote : s.quote = s'.quote := by
    have hquotes := h.quote
    rw [hmark, h'.quote] at hquotes
    exact (Option.some.inj hquotes).symm
  have hcontent : s.content = s'.content := by
    rw [← literalContent_append h.quote h.content s.back, hrest, hmark,
      literalContent_append h'.quote h'.content s'.back]
  rw [hcontent, hmark] at hrest
  have hback := (List.cons.inj (List.append_cancel_left hrest)).2
  cases s
  cases s'
  dsimp only at hhead hinner hmark hquote hcontent hback
  subst hhead hinner hmark hquote hcontent hback
  rfl

/-- A clause is read exactly where one is spelled. -/
theorem Clause.read_eq_ok_iff {clause : Clause} :
    Clause.read ⟨offset, t⟩ = .ok clause ↔
      ∃ s : Spelling, s.Spells t ∧ clause = s.clauseAt offset := by
  constructor
  · intro h
    rcases spells_or_fails offset t with ⟨s, hs⟩ | ⟨front, rest, failure, -, hfail, -⟩
    · have hread := read_of_spells hs offset
      rw [h] at hread
      exact ⟨s, hs, Except.ok.inj hread⟩
    · cases h.symm.trans hfail
  · rintro ⟨s, hs, rfl⟩
    exact read_of_spells hs offset

/-! ### Outlines -/

namespace Outline

/-- The text between the blanks around an excerpt. -/
theorem text_trim (e : Excerpt) : e.trim.text = Text.trim e.text := by
  rw [Excerpt.trim, Excerpt.trimEnd, Excerpt.text_trimStart]
  rfl

/-- A directive is read where a word and a colon stand; its parameter stands behind these. -/
theorem read_eq_ok_iff {outline : Outline} :
    read ⟨offset, t⟩ = .ok outline ↔
      ∃ front name gap param, t = front ++ (name ++ (gap ++ ':' :: param)) ∧ front.Blank ∧
        name.IsWord ∧ gap.Blank ∧ outline.name = ⟨offset + front.size, name⟩ ∧
        outline.param =
          Excerpt.trim ⟨offset + Text.size (front ++ (name ++ (gap ++ [':']))), param⟩ ∧
        outline.clause =
          if importing.contains name then some (Clause.read outline.param) else none := by
  have hcolon (param : Text) : Text.StartsSolid (':' :: param) := by
    rintro c ⟨⟩
    decide
  have hdrop (place : Nat) (param : Text) :
      Excerpt.drop 1 ⟨place, ':' :: param⟩ = ⟨place + Text.size [':'], param⟩ := rfl
  have hplace (front name gap : Text) :
      offset + Text.size front + Text.size name + Text.size gap + Text.size [':'] =
        offset + Text.size (front ++ (name ++ (gap ++ [':']))) := by
    simp only [Text.size_append]
    omega
  constructor
  · intro h
    obtain ⟨front, rest, rfl, hfront, -, htrim⟩ := Excerpt.exists_trimStart offset t
    unfold read at h
    rw [htrim] at h
    cases hword : word? ⟨offset + front.size, rest⟩ with
    | none =>
      rw [hword] at h
      cases h
    | some found =>
      obtain ⟨first, left⟩ := found
      obtain ⟨name, rest, rfl, hname, -, rfl, rfl⟩ := word?_eq_some_iff.1 hword
      obtain ⟨gap, rest, rfl, hgap, -, htrim'⟩ :=
        Excerpt.exists_trimStart (offset + front.size + name.size) rest
      rw [hword] at h
      dsimp only at h
      rw [htrim'] at h
      dsimp only at h
      split at h
      · next hhead =>
        obtain ⟨param, rfl⟩ := List.head?_eq_some_iff.1 hhead
        rw [hdrop, hplace] at h
        cases h
        exact ⟨front, name, gap, param, rfl, hfront, hname, hgap, rfl, rfl, rfl⟩
      · cases h
  · obtain ⟨outlineName, outlineParam, clause⟩ := outline
    rintro ⟨front, name, gap, param, rfl, hfront, hname, hgap, hfound, hparam, hclause⟩
    dsimp only at hfound hparam hclause
    subst hfound hparam hclause
    have hapart : Text.StartsApart (gap ++ ':' :: param) := hgap.startsApart_cons (by decide) param
    unfold read
    rw [Excerpt.trimStart_mk _ hfront (hname.startsSolid _), word?_append hname hapart]
    dsimp only
    rw [Excerpt.trimStart_mk _ hgap (hcolon param)]
    dsimp only
    rw [List.head?_cons, if_pos rfl, hdrop, hplace]

/-- A directive is right if it is read and so is its clause, where it has one. -/
theorem exists_of_isDirective :
    (∃ outline, read ⟨offset, t⟩ = .ok outline ∧ outline.failure? = none) ↔ IsDirective t := by
  constructor
  · rintro ⟨outline, hread, hright⟩
    obtain ⟨front, name, gap, param, rfl, hfront, hname, hgap, -, hparam, hclause⟩ :=
      read_eq_ok_iff.1 hread
    refine ⟨front, name, gap, param, rfl, hfront, hname, hgap, fun himporting => ?_⟩
    rw [if_pos (List.contains_iff_mem.2 himporting)] at hclause
    cases hfound : Clause.read outline.param with
    | error failure =>
      rw [failure?, hclause, hfound] at hright
      cases hright
    | ok clause =>
      obtain ⟨s, hs, -⟩ := Clause.read_eq_ok_iff.1 hfound
      have htext : outline.param.text = Text.trim param := by rw [hparam, text_trim]
      exact ⟨s, htext ▸ hs⟩
  · rintro ⟨front, name, gap, param, rfl, hfront, hname, hgap, hspells⟩
    obtain ⟨e, he⟩ : ∃ e, e =
        Excerpt.trim ⟨offset + Text.size (front ++ (name ++ (gap ++ [':']))), param⟩ := ⟨_, rfl⟩
    have htext : e.text = Text.trim param := by rw [he, text_trim]
    refine ⟨⟨⟨offset + front.size, name⟩, e,
      if importing.contains name then some (Clause.read e) else none⟩,
      read_eq_ok_iff.2 ⟨front, name, gap, param, rfl, hfront, hname, hgap, rfl, he, rfl⟩, ?_⟩
    unfold failure?
    dsimp only
    by_cases himporting : name ∈ importing
    · obtain ⟨s, hs⟩ := hspells himporting
      rw [if_pos (List.contains_iff_mem.2 himporting), Clause.read_of_spells (htext ▸ hs)]
    · rw [if_neg (mt List.contains_iff_mem.1 himporting)]

end Outline

/-- Nothing is wrong with an expression exactly if it is a directive. -/
theorem read_snd_eq_none_iff {source : Source} {expression : Span} :
    (read source expression).2 = none ↔ IsDirective (source.excerpt expression).text := by
  rw [← Outline.exists_of_isDirective]
  unfold read
  cases houtline : Outline.read (source.excerpt expression) with
  | error failure =>
    refine iff_of_false (fun h => nomatch h) ?_
    rintro ⟨outline, ⟨⟩, -⟩
  | ok outline =>
    rw [Option.map_eq_none_iff]
    constructor
    · exact fun h => ⟨outline, rfl, h⟩
    · rintro ⟨outline, ⟨⟩, hright⟩
      exact hright

/-- An import clause is read exactly where one is spelled; it says what it is spelled with, and it
is spelled in one way. The expression of a virtual element that is to be a directive gives one
error at most, and none exactly if it is a directive with a clause where its name asks for one. -/
theorem reads_exactly_the_grammar :
    (∀ offset t clause, Clause.read ⟨offset, t⟩ = .ok clause ↔
      ∃ s : Spelling, s.Spells t ∧ clause = s.clauseAt offset) ∧
      (∀ (t : Text) (s s' : Spelling), s.Spells t → s'.Spells t → s = s') ∧
      ∀ (c : Setting) (owner : Nat) (start : Delimiter.Start) (p : Progress), start.space = .ok →
        ∃ meaning errors, (c.readMeaning owner start).run.run p = (.ok meaning, p.found errors) ∧
          errors.length ≤ 1 ∧
          (errors = [] ↔ IsDirective (c.source.excerpt start.expression).text) := by
  refine ⟨fun offset t clause => Clause.read_eq_ok_iff, fun t s s' h h' => h.unique h',
    fun c owner start p hspace => ⟨_, _, c.run_readMeaning owner start p, ?_⟩⟩
  unfold Setting.meaningOf
  rw [hspace, ← read_snd_eq_none_iff]
  dsimp only
  cases (read c.source start.expression).2 with
  | none => exact ⟨Nat.zero_le 1, iff_of_true rfl rfl⟩
  | some e => exact ⟨Nat.le_refl 1, iff_of_false (List.cons_ne_nil e []) (fun h => nomatch h)⟩

/-- The first `type` is a modifier and the second the name, and the literal holds a quote behind a
backslash; behind `with` and a colon that is a directive. -/
theorem reads_exactly_the_grammar_of_type :
    let t := "type type from'a\\'b' ".toList
    let c : Setting := ⟨Source.ofText ("with: ".toList ++ t), {}, .standard⟩
    let start : Delimiter.Start := ⟨.ok, ⟨0, 0⟩, ⟨0, 27⟩⟩
    (∃ s : Spelling, s.Spells t ∧ (∀ s' : Spelling, s'.Spells t → s' = s) ∧
      s.clauseAt 6 = ⟨⟨6, 26⟩, ⟨11, "type".toList⟩, true, ⟨⟨21, "a\\'b".toList⟩, .single⟩⟩) ∧
      start.space = .ok ∧ IsDirective (c.source.excerpt start.expression).text := by
  intro t c start
  obtain ⟨hread, hunique, hdirective⟩ := reads_exactly_the_grammar
  have hclause : (Clause.read ⟨6, t⟩).toOption =
      some ⟨⟨6, 26⟩, ⟨11, "type".toList⟩, true, ⟨⟨21, "a\\'b".toList⟩, .single⟩⟩ := by
    decide +kernel
  refine ⟨?_, rfl, ?_⟩
  · rcases h : Clause.read ⟨6, t⟩ with failure | clause
    · rw [h] at hclause
      cases hclause
    · rw [h] at hclause
      obtain ⟨s, hs, hsays⟩ := (hread 6 t clause).1 h
      exact ⟨s, hs, fun s' hs' => hunique t s' s hs' hs, hsays.symm.trans (Option.some.inj hclause)⟩
  · obtain ⟨meaning, errors, hrun, -, hiff⟩ := hdirective c 0 start ⟨0, []⟩ rfl
    have hnone : ((c.readMeaning 0 start).run.run ⟨0, []⟩).2.errors.length = 0 := by
      decide +kernel
    rw [hrun] at hnone
    refine hiff.1 (List.eq_nil_of_length_eq_zero ?_)
    simpa [Progress.found] using hnone

end BoundTemplate.Directive
