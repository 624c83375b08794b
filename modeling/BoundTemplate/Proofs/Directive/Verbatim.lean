import BoundTemplate.Directive.Meaning
import BoundTemplate.Proofs.Text.Slice

/-!
# Directives word for word

Every part of a directive is a part of the expression that it is read from. So a directive
can be read with slices that may fail, and none does.
-/

namespace BoundTemplate.Directive

variable {source : Source}

/-! ### Parts of an expression -/

/-- A word and what follows it are parts of what starts with the word. -/
theorem contains_of_word? {e word rest : Excerpt} (h : word? e = some (word, rest)) :
    e.Contains word ∧ e.Contains rest := by
  unfold word? at h
  split at h
  · cases h
    exact ⟨e.contains_take _, e.contains_drop _⟩
  · cases h

theorem contains_of_importedName? {e name rest : Excerpt}
    (h : importedName? e = some (name, rest)) : e.Contains name ∧ e.Contains rest := by
  unfold importedName? at h
  split at h
  · cases h
    exact ⟨e.contains_take _, e.contains_drop _⟩
  · exact contains_of_word? h

theorem contains_of_afterKeyword? {keyword : String} {e rest : Excerpt}
    (h : afterKeyword? keyword e = some rest) : e.Contains rest := by
  unfold afterKeyword? at h
  dsimp only at h
  split at h
  · cases h
    exact e.contains_drop _
  · cases h

/-- What stands between two quotes is a part of what starts with the first. -/
theorem contains_of_readLiteral {e rest : Excerpt} {quoted : Quoted}
    (h : readLiteral e = .ok (quoted, rest)) : e.Contains quoted.content := by
  unfold readLiteral at h
  dsimp only at h
  repeat' split at h
  all_goals cases h
  exact (e.contains_drop 1).trans (Excerpt.contains_take _ _)

namespace Clause

/-- The name of a clause is the word that it starts with or the one behind. -/
theorem contains_skipLeadingType {e first rest : Excerpt} (hfirst : e.Contains first)
    (hrest : e.Contains rest) :
    e.Contains (skipLeadingType first rest).1 ∧ e.Contains (skipLeadingType first rest).2.2 := by
  unfold skipLeadingType
  split
  · split
    · next name behind hname =>
      obtain ⟨hname, hbehind⟩ := contains_of_importedName? hname
      split
      · exact ⟨hfirst, hrest⟩
      · exact ⟨hrest.trans hname, hrest.trans (hbehind.trans behind.contains_trimStart)⟩
    · exact ⟨hfirst, hrest⟩
  · exact ⟨hfirst, hrest⟩

theorem contains_skipTrailingType (typed : Bool) (e : Excerpt) :
    e.Contains (skipTrailingType typed e).2 := by
  unfold skipTrailingType
  split
  · exact .refl e
  · split
    · next behind hbehind =>
      exact (contains_of_afterKeyword? hbehind).trans behind.contains_trimStart
    · exact .refl e

/-- The parts of an import clause are parts of what it is read from. -/
theorem contains_of_read {e : Excerpt} {clause : Clause} (h : read e = .ok clause) :
    e.Contains clause.name ∧ e.Contains clause.module.content := by
  unfold read at h
  dsimp only at h
  split at h
  · cases h
  · next first rest hfirst =>
    obtain ⟨hfirst, hrest⟩ := contains_of_importedName? hfirst
    obtain ⟨hname, hbehind⟩ :=
      contains_skipLeadingType hfirst (hrest.trans rest.contains_trimStart)
    have htyped := hbehind.trans (contains_skipTrailingType
      (skipLeadingType first rest.trimStart).2.1 (skipLeadingType first rest.trimStart).2.2)
    split at h
    · cases h
    · next behind hfrom =>
      have hfrom := htyped.trans (contains_of_afterKeyword? hfrom)
      split at h
      · cases h
      · next module last hmodule =>
        have hmodule := contains_of_readLiteral hmodule
        split at h
        · cases h
          exact ⟨hname, (hfrom.trans behind.contains_trimStart).trans hmodule⟩
        · cases h

end Clause

/-- The parts of a directive are parts of what it is read from. -/
theorem Outline.contains_of_read {e : Excerpt} {outline : Outline} (h : read e = .ok outline) :
    e.Contains outline.name ∧ e.Contains outline.param ∧
      ∀ clause, outline.clause = some (.ok clause) →
        e.Contains clause.name ∧ e.Contains clause.module.content := by
  unfold read at h
  dsimp only at h
  split at h
  · cases h
  · next name rest hname =>
    obtain ⟨hname, hrest⟩ := contains_of_word? hname
    split at h
    · cases h
      have hrest := (e.contains_trimStart.trans hrest).trans rest.contains_trimStart
      have hparam := (hrest.trans (rest.trimStart.contains_drop 1)).trans (Excerpt.contains_trim _)
      refine ⟨e.contains_trimStart.trans hname, hparam, ?_⟩
      intro clause hclause
      dsimp only at hclause
      split at hclause
      · obtain ⟨hname, hmodule⟩ := Clause.contains_of_read (Option.some.inj hclause)
        exact ⟨hparam.trans hname, hparam.trans hmodule⟩
      · cases hclause
    · cases h

/-! ### Reading with slices that may fail -/

/-- The import of a clause, if its parts are in the text. -/
def Clause.locate? (source : Source) (clause : Clause) : Option Import := do
  let content ← source.piece? clause.module.content.span
  return {
    range := source.range clause.span
    identifier := ← source.piece? clause.name.span
    typeOnly := clause.typeOnly
    module := ⟨content.text, content.range, clause.module.quote⟩ }

/-- The directive of an outline, if its parts are in the text. -/
def Outline.locate? (source : Source) (outline : Outline) : Option Directive := do
  return {
    name := ← source.piece? outline.name.span
    param := ← source.piece? outline.param.span
    clause := ← (outline.clause.bind Except.toOption).mapM (Clause.locate? source) }

/-- What the expression of a virtual element means, and what is wrong with it, if it and its parts
are in the text. -/
def read? (source : Source) (expression : Span) : Option (Meaning × Option ParseError) := do
  match Outline.read (← source.excerpt? expression) with
  | .error failure => return (.unknown, some (failure.locate source))
  | .ok outline =>
    return (.directive (← outline.locate? source), outline.failure?.map (Failure.locate source))

end Directive

/-- The name and the module of an import stand where the import says. -/
structure Import.Verbatim (source : Source) (i : Import) : Prop where
  identifier : source.Has i.identifier
  module : source.Has i.module.piece
  range : source.Locates i.range

/-- The parts of a directive stand where the directive says. -/
structure Directive.Verbatim (source : Source) (d : Directive) : Prop where
  name : source.Has d.name
  param : source.Has d.param
  clause : ∀ i, d.clause = some i → i.Verbatim source

namespace Directive

variable {source : Source}

/-- An import is located without a failing slice. -/
theorem Clause.locate_spec {clause : Clause}
    (hname : source.text.Holds clause.name.span clause.name.text)
    (hmodule : source.text.Holds clause.module.content.span clause.module.content.text) :
    clause.locate? source = some (clause.locate source) ∧
      (clause.locate source).Verbatim source := by
  refine ⟨?_, Source.has_piece hname, Source.has_piece hmodule, source.locates_range _⟩
  rw [locate?, Source.piece?_eq_some hname, Source.piece?_eq_some hmodule]
  rfl

/-- A directive is located without a failing slice. -/
theorem Outline.locate_spec {outline : Outline}
    (hname : source.text.Holds outline.name.span outline.name.text)
    (hparam : source.text.Holds outline.param.span outline.param.text)
    (hclause : ∀ clause, outline.clause = some (.ok clause) →
      source.text.Holds clause.name.span clause.name.text ∧
        source.text.Holds clause.module.content.span clause.module.content.text) :
    outline.locate? source = some (outline.locate source) ∧
      (outline.locate source).Verbatim source := by
  unfold locate? locate
  rw [Source.piece?_eq_some hname, Source.piece?_eq_some hparam]
  rcases hfound : outline.clause with _ | _ | clause
  · exact ⟨rfl, Source.has_piece hname, Source.has_piece hparam, by rintro i ⟨⟩⟩
  · exact ⟨rfl, Source.has_piece hname, Source.has_piece hparam, by rintro i ⟨⟩⟩
  · obtain ⟨hclauseName, hmodule⟩ := hclause clause hfound
    obtain ⟨hlocate, hverbatim⟩ := Clause.locate_spec hclauseName hmodule
    constructor
    · simp only [Option.bind_some, Except.toOption, Option.mapM_some, hlocate]
      rfl
    · refine ⟨Source.has_piece hname, Source.has_piece hparam, ?_⟩
      rintro i ⟨⟩
      exact hverbatim

/-- What is read as a directive is no binding list. -/
theorem read_ne_bindings (source : Source) (expression : Span) (list : List Binding) :
    (read source expression).1 ≠ .bindings list := by
  intro h
  unfold read at h
  split at h
  · cases h
  · cases h

/-- The expression of a virtual element is read without a failing slice. -/
theorem read_spec {expression : Span} {part : Text} (h : source.text.Holds expression part) :
    read? source expression = some (read source expression) ∧
      ∀ d, (read source expression).1 = .directive d → d.Verbatim source := by
  have hexpression := h.excerpt
  unfold read? read
  rw [Source.excerpt?_eq_some h, Source.excerpt_eq h]
  dsimp only [Option.bind_eq_bind, Option.bind_some]
  rcases houtline : Outline.read ⟨expression.start, part⟩ with failure | outline
  · exact ⟨rfl, by rintro d ⟨⟩⟩
  · obtain ⟨hname, hparam, hclause⟩ := Outline.contains_of_read houtline
    obtain ⟨hlocate, hverbatim⟩ := Outline.locate_spec (hname.holds hexpression)
      (hparam.holds hexpression) fun clause hfound =>
        ⟨(hclause clause hfound).1.holds hexpression, (hclause clause hfound).2.holds hexpression⟩
    dsimp only
    rw [hlocate]
    refine ⟨rfl, ?_⟩
    rintro d ⟨⟩
    exact hverbatim

end BoundTemplate.Directive
