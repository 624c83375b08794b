import BoundTemplate.Proofs.Markup.BareAngle

/-!
# End tags

An end tag ends the nearest open element of its name, and with it those that were opened after it.
If no element of its name is open it ends none, and is recorded. What is recorded stays, so the
stray end tags of a document are those that reading met with no element of their name open.
-/

namespace BoundTemplate.Markup

open Builder

variable {tokenizer : Tokenizer} {source : Text}

namespace Builder

variable {b b' behind last : Builder tokenizer source} {name others : Text} {range : Span}

/-! ### Elements that an end tag ends -/

/-- Open elements that end without end tags go into the one around them, which stays open. -/
theorem closeAt_eq (offset : Nat) (b : Builder tokenizer source) (closed : List OpenElement)
    (e : OpenElement) (outer : List OpenElement) :
    ∃ children, closeAt offset closed.length { b with stack := closed ++ e :: outer } =
      { b with stack := { e with children } :: outer } := by
  generalize hn : closed.length = n
  induction n generalizing closed e with
  | zero =>
    rw [List.eq_nil_of_length_eq_zero hn]
    exact ⟨e.children, rfl⟩
  | succ n ih =>
    obtain ⟨d, others, rfl⟩ := List.exists_cons_of_length_eq_add_one hn
    have hothers : others.length = n := Nat.succ.inj hn
    rw [closeAt]
    -- What ends goes into the next open element, which is one of those that end, or the last one.
    cases others with
    | nil => exact ih [] { e with children := (d.close offset offset).addTo e.children } hothers
    | cons next others =>
      exact ih ({ next with children := (d.close offset offset).addTo next.children } :: others) e
        hothers

/-- The nearest open element of a name is found, if there is one. -/
theorem exists_nearest (name : Text) (stack : List OpenElement) :
    (∀ e ∈ stack, e.name.sameLetters name = false) ∨
      ∃ closed e outer, stack = closed ++ e :: outer ∧
        (∀ d ∈ closed, d.name.sameLetters name = false) ∧ e.name.sameLetters name = true := by
  cases hfind : stack.find? fun e => e.name.sameLetters name with
  | none => exact .inl fun e he => Bool.eq_false_iff.2 (List.find?_eq_none.1 hfind e he)
  | some e =>
    obtain ⟨he, closed, outer, hstack, hclosed⟩ := List.find?_eq_some_iff_append.1 hfind
    exact .inr ⟨closed, e, outer, hstack, fun d hd => by simpa using hclosed d hd, he⟩

/-- An end tag ends what was opened after the nearest element of its name, and then that. -/
theorem closeNamed_eq {closed outer : List OpenElement} {e : OpenElement} (range : Span)
    (hstack : b.stack = closed ++ e :: outer)
    (hclosed : ∀ d ∈ closed, d.name.sameLetters name = false)
    (he : e.name.sameLetters name = true) :
    b.closeNamed name range =
      (b.closeAt range.start closed.length).closeInnermost range.start range.stop := by
  have hfind : b.stack.findIdx? (fun e => e.name.sameLetters name) = some closed.length := by
    rw [hstack, List.findIdx?_append, List.findIdx?_eq_none_iff.2 hclosed, List.findIdx?_cons, he]
    exact congrArg some (Nat.zero_add _)
  rw [closeNamed, hfind]

/-- The nearest open element of its name becomes a node that goes through the end tag. -/
theorem closeNamed_of_nearest {closed outer : List OpenElement} {e : OpenElement} (range : Span)
    (hstack : b.stack = closed ++ e :: outer)
    (hclosed : ∀ d ∈ closed, d.name.sameLetters name = false)
    (he : e.name.sameLetters name = true) :
    ∃ children, b.closeNamed name range =
      push (e.tag.element children range.start range.stop) { b with stack := outer } := by
  obtain ⟨children, hclose⟩ := closeAt_eq range.start b closed e outer
  rw [← hstack] at hclose
  refine ⟨children.reverse, ?_⟩
  rw [closeNamed_eq range hstack hclosed he, hclose]
  rfl

/-- An end tag with no open element of its name is recorded, and ends none. -/
theorem closeNamed_of_none (range : Span)
    (h : ∀ e ∈ b.stack, e.name.sameLetters name = false) :
    b.closeNamed name range = b.report range (.strayEndTag name) := by
  have hfind : b.stack.findIdx? (fun e => e.name.sameLetters name) = none :=
    List.findIdx?_eq_none_iff.2 h
  rw [closeNamed, hfind]

/-- A tag that ends right behind its name has no attributes. -/
theorem readTag_of_bare {nameSize : Nat} {range : Span}
    (h : attributesStop source (range.start + 1 + nameSize) range.stop =
      range.start + 1 + nameSize) :
    readTag source nameSize range =
      .ok ⟨range, ⟨range.start + 1, range.start + 1 + nameSize⟩, []⟩ := by
  have hscan : Attribute.scan (range.start + 1 + nameSize) [] = [] := by rw [Attribute.scan]
  simp only [readTag, h, Nat.sub_self, List.take_zero, hscan]
  rfl

/-- A start tag whose name is that of an element with content opens one. -/
theorem add_startTag {tag : StartTag} {start : Nat} {written : Text}
    (named : Token.isTagName name = true)
    (htag : readTag source name.size ⟨start, b.offset⟩ = .ok tag)
    (hname : source.checkedSlice tag.name = .ok written) (hvoid : isOneOf voidNames written = false)
    (hraw : isOneOf rawNames written = false) :
    b.add (.startTag name others) start =
      .ok { b with stack := ⟨tag, written, []⟩ :: b.stack } := by
  have hbare : (Token.startTag name others).isBare = false := by rw [Token.isBare, named]; rfl
  have hopen : b.openElement tag = .ok { b with stack := ⟨tag, written, []⟩ :: b.stack } := by
    unfold openElement
    rw [hname]
    simp only [bind, Except.bind, hvoid, hraw, Bool.false_eq_true, if_false]
    rfl
  unfold Builder.add
  simp only [hbare, htag]
  exact hopen

/-! ### End tags that are met -/

/-- An end tag of a name is what a builder reads next. -/
structure Meets (b : Builder tokenizer source) (name others : Text)
    (behind : Builder tokenizer source) : Prop where
  reached : Reaches b
  read : b.next = .ok (some (.endTag name others, behind))
  named : Token.isTagName name = true

/-- The builder goes on behind an end tag, with all that it ends. -/
theorem LaidOut.add_endTag (h : b.LaidOut)
    (read : b.next = .ok (some (.endTag name others, behind)))
    (named : Token.isTagName name = true) :
    behind.add (.endTag name others) b.offset =
      .ok (behind.closeNamed name ⟨b.offset, behind.offset⟩) := by
  obtain ⟨more, hlexeme⟩ := Token.exists_lexeme_endTag_eq name others
  have hparts := hlexeme ▸ (h.holds_next read).1
  have hname := hparts.split.2.split.1.checkedSlice_eq_ok
  have hsize : Text.size ['<', '/'] = 2 := rfl
  rw [hsize] at hname
  have hbare : (Token.endTag name others).isBare = false := by rw [Token.isBare, named]; rfl
  unfold Builder.add
  simp only [hbare, hname]
  rfl

theorem Meets.add (mark : byteOrderMark ∉ source) (h : Meets b name others behind) :
    behind.add (.endTag name others) b.offset =
      .ok (behind.closeNamed name ⟨b.offset, behind.offset⟩) :=
  (h.reached.laidOut mark).add_endTag h.read h.named

/-- Reading a token opens and ends no element, and records nothing. -/
theorem keeps_of_next {token : Token} (h : b.next = .ok (some (token, behind))) :
    behind.stack = b.stack ∧ behind.roots = b.roots ∧ behind.problems = b.problems := by
  obtain ⟨reader, within, -, rfl⟩ := exists_of_next h
  exact ⟨rfl, rfl, rfl⟩

/-! ### What is recorded -/

theorem problems_restart {offset : Nat} (h : b.restart offset = .ok b') :
    b'.problems = b.problems := by
  unfold restart at h
  dsimp only at h
  split at h
  · cases h
  · cases h
    rfl

theorem problems_openElement {tag : StartTag} (h : b.openElement tag = .ok b') :
    b'.problems = b.problems := by
  obtain ⟨name, -, h⟩ := exists_of_bind_eq_ok h
  split at h
  · cases h
    exact problems_push _ b
  · split at h
    · obtain ⟨found, -, h⟩ := exists_of_bind_eq_ok h
      exact (problems_restart h).trans (problems_push _ b)
    · cases h
      rfl

/-- Only end tags are recorded when they are added, and no bare ones. -/
theorem problems_add {token : Token} {start : Nat} (h : b.add token start = .ok b')
    (hne : ∀ name others, token = .endTag name others → token.isBare = true) :
    b'.problems = b.problems := by
  unfold add at h
  dsimp only at h
  split at h
  · exact (problems_restart h).trans (problems_push _ b)
  · next hbare =>
    cases token with
    | text | comment =>
      cases h
      exact problems_push _ _
    | emptyTag name others =>
      obtain ⟨tag, -, h⟩ := exists_of_bind_eq_ok h
      cases h
      exact problems_push _ _
    | startTag name others =>
      obtain ⟨tag, -, h⟩ := exists_of_bind_eq_ok h
      exact problems_openElement h
    | endTag name others => exact absurd (hne name others rfl) hbare

/-- An end tag is recorded if no element of its name is open. -/
theorem problems_closeNamed (name : Text) (range : Span) (b : Builder tokenizer source) :
    (b.closeNamed name range).problems =
      if ∀ e ∈ b.stack, e.name.sameLetters name = false then
        (range, .strayEndTag name) :: b.problems
      else b.problems := by
  rcases exists_nearest name b.stack with hnone | ⟨closed, e, outer, hstack, hclosed, he⟩
  · rw [if_pos hnone, closeNamed_of_none range hnone]
    rfl
  · have hmem : e ∈ b.stack := hstack ▸ List.mem_append_right closed List.mem_cons_self
    have hopen : ¬∀ e ∈ b.stack, e.name.sameLetters name = false := fun hnone =>
      Bool.false_ne_true ((hnone e hmem).symm.trans he)
    rw [if_neg hopen, closeNamed_eq range hstack hclosed he, problems_closeInnermost,
      problems_closeAt]

/-- A token is an end tag of a name, or none is recorded for it. -/
theorem exists_endTag_or (token : Token) :
    (∃ name others, token = .endTag name others ∧ Token.isTagName name = true) ∨
      ∀ name others, token = .endTag name others → token.isBare = true := by
  cases token with
  | endTag name others =>
    cases hname : Token.isTagName name with
    | true => exact .inl ⟨name, others, rfl, hname⟩
    | false =>
      refine .inr fun _ _ _ => ?_
      rw [Token.isBare, hname]
      rfl
  | text | comment | startTag | emptyTag =>
    refine .inr ?_
    rintro _ _ ⟨⟩

/-- What is added does not take back what is recorded. -/
theorem subset_problems_add {token : Token} {start : Nat} (h : b.add token start = .ok b') :
    b.problems ⊆ b'.problems := by
  rcases exists_endTag_or token with ⟨name, others, rfl, hname⟩ | hne
  · have hbare : (Token.endTag name others).isBare = false := by rw [Token.isBare, hname]; rfl
    unfold add at h
    simp only [hbare] at h
    obtain ⟨written, -, h⟩ := exists_of_bind_eq_ok h
    cases h
    rw [problems_closeNamed]
    split
    · exact List.subset_cons_self _ _
    · exact List.Subset.refl _
  · rw [problems_add h hne]
    exact List.Subset.refl _

/-- An end tag with no open element of its name is what a builder reads next. -/
structure Strays (b : Builder tokenizer source) (name others : Text)
    (behind : Builder tokenizer source) : Prop extends Meets b name others behind where
  unopened : ∀ e ∈ b.stack, e.name.sameLetters name = false

/-- The end tags that a builder has recorded are those that were stray where they were met. -/
theorem Reaches.exists_strays (mark : byteOrderMark ∉ source) (h : Reaches b)
    (hstray : (range, .strayEndTag name) ∈ b.problems) :
    ∃ (met : Builder tokenizer source) (others : Text) (behind : Builder tokenizer source),
      Strays met name others behind ∧ range = ⟨met.offset, behind.offset⟩ := by
  induction h with
  | start => cases hstray
  | @step b b' behind token h read added ih =>
    obtain ⟨hstack, -, hproblems⟩ := keeps_of_next read
    rcases exists_endTag_or token with ⟨written, others, rfl, hname⟩ | hne
    · have hmeets : Meets b written others behind := ⟨h, read, hname⟩
      obtain rfl := Except.ok.inj ((hmeets.add mark).symm.trans added)
      rw [problems_closeNamed, hproblems] at hstray
      split at hstray
      · next hunopened =>
        rcases List.mem_cons.1 hstray with heq | hold
        · cases heq
          exact ⟨b, others, behind, ⟨hmeets, hstack ▸ hunopened⟩, rfl⟩
        · exact ih hold
      · exact ih hstray
    · rw [problems_add added hne, hproblems] at hstray
      exact ih hstray

/-! ### Reading to the end -/

/-- Reading goes through what is reached. -/
theorem Reaches.run_eq (h : Reaches b) : (Builder.start tokenizer source).run = b.run := by
  induction h with
  | start => rfl
  | step h read added ih => exact ih.trans (run_of_add read added)

/-- Reading ends with a builder that it reaches, or keeps what it cannot read. -/
theorem Reaches.run (h : Reaches b) (hrun : b.run = .ok last) :
    Reaches last ∨ ∃ kept failure, Reaches kept ∧ kept.next = .error failure ∧
      last = kept.keepRest failure := by
  rcases run_induction (fun _ _ _ _ => Reaches.step) h hrun with ⟨hlast, -⟩ | hkept
  · exact .inl hlast
  · exact .inr hkept

/-- What cannot be read is recorded in front of all else. -/
theorem problems_keepRest (failure : Failure) (b : Builder tokenizer source) :
    (b.keepRest failure).problems =
      (Span.empty (b.base + failure.position), .unreadable failure.message) :: b.problems := by
  unfold keepRest
  dsimp only
  split
  · exact problems_push _ _
  · rfl

/-- Reading to the end does not take back what is recorded. -/
theorem subset_problems_run (hrun : b.run = .ok last) : b.problems ⊆ last.problems := by
  have hstep (d d' behind : Builder tokenizer source) (token : Token)
      (hsubset : b.problems ⊆ d.problems) (read : d.next = .ok (some (token, behind)))
      (added : behind.add token d.offset = .ok d') : b.problems ⊆ d'.problems :=
    List.Subset.trans hsubset ((keeps_of_next read).2.2 ▸ subset_problems_add added)
  rcases run_induction hstep (List.Subset.refl _) hrun with
    ⟨hlast, -⟩ | ⟨kept, failure, hkept, -, rfl⟩
  · exact hlast
  · rw [problems_keepRest]
    exact List.subset_cons_of_subset _ hkept

end Builder

/-! ### Documents -/

/-- A document is what reading makes of a text, with all elements ended that are still open. -/
theorem Document.exists_run {document : Document}
    (h : Document.ofText tokenizer source = .ok document) :
    ∃ last, (Builder.start tokenizer source).run = .ok last ∧
      document.nodes = (last.closeAt source.size last.stack.length).roots.reverse ∧
      document.problems = last.problems.reverse := by
  obtain ⟨last, hlast, h⟩ := exists_of_bind_eq_ok h
  cases h
  exact ⟨last, hlast, rfl, congrArg List.reverse (problems_closeAt _ _ last)⟩

/-- The end tags that a document records are those that were met with no open element of their
name. -/
theorem Document.mem_problems_iff_strays {document : Document} (mark : byteOrderMark ∉ source)
    (h : Document.ofText tokenizer source = .ok document) (range : Span) (name : Text) :
    (range, .strayEndTag name) ∈ document.problems ↔
      ∃ (met : Builder tokenizer source) (others : Text) (behind : Builder tokenizer source),
        Strays met name others behind ∧ range = ⟨met.offset, behind.offset⟩ := by
  obtain ⟨last, hlast, -, hproblems⟩ := Document.exists_run h
  rw [hproblems, List.mem_reverse]
  constructor
  · intro hmem
    rcases Reaches.start.run hlast with hreached | ⟨kept, failure, hkept, -, rfl⟩
    · exact hreached.exists_strays mark hmem
    · rw [problems_keepRest] at hmem
      rcases List.mem_cons.1 hmem with heq | hmem
      · cases heq
      · exact hkept.exists_strays mark hmem
  · rintro ⟨met, others, behind, hstrays, rfl⟩
    have hadd := hstrays.add mark
    have hrun := (hstrays.reached.step hstrays.read hadd).run_eq
    refine subset_problems_run (hrun ▸ hlast) ?_
    have hnone : ∀ e ∈ behind.stack, e.name.sameLetters name = false :=
      (keeps_of_next hstrays.read).1 ▸ hstrays.unopened
    rw [closeNamed_of_none _ hnone]
    exact List.mem_cons_self

end BoundTemplate.Markup
