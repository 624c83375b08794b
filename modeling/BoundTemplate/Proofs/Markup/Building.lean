import BoundTemplate.Proofs.Markup.Layout
import BoundTemplate.Proofs.Markup.RawEnd

/-!
# The layout that is built

Every step of a builder keeps what it has read laid out, open elements included, so
the document of a text is a layout of all of it. Byte order marks are left out: what
follows one is not located where it stands.
-/

namespace BoundTemplate.Markup

open Builder

variable {tokenizer : Tokenizer} {source : Text} {b : Builder tokenizer source}
  {strays : List Span}

/-! ### Nodes and problems that are added -/

/-- What extends every layout up to an offset extends that of the innermost open element. -/
theorem OpenLayout.push {node : Node} {strays : List Span} (more : List Span)
    {offset offset' : Nat} (h : OpenLayout source b.roots b.stack strays offset)
    (extend : ∀ start nodes strays, Layout source start nodes strays offset →
      Layout source start (node.addTo nodes) (more ++ strays) offset') :
    OpenLayout source (b.push node).roots (b.push node).stack (more ++ strays) offset' := by
  rcases hs : b.stack with _ | ⟨e, stack⟩
  · rw [hs] at h
    have hp : b.push node = { b with roots := node.addTo b.roots } := by simp [Builder.push, hs]
    rw [hp]
    simp only [hs]
    exact extend _ _ _ h
  · rw [hs] at h
    obtain ⟨inside, outside, rfl, tag, content, rest⟩ := h
    have hp : b.push node =
        { b with stack := { e with children := node.addTo e.children } :: stack } := by
      simp [Builder.push, hs]
    rw [hp]
    exact ⟨more ++ inside, outside, (List.append_assoc ..).symm, tag, extend _ _ _ content, rest⟩

/-- A stray end tag goes into the innermost open element. -/
theorem OpenLayout.addStray {roots : List Node} {stack : List OpenElement} {strays : List Span}
    {span : Span} {name others : Text} (h : OpenLayout source roots stack strays span.start)
    (holds : source.Holds span (Token.endTag name others).lexeme) :
    OpenLayout source roots stack (span :: strays) span.stop := by
  cases stack with
  | nil => exact Layout.stray h holds
  | cons e stack =>
    obtain ⟨inside, outside, rfl, tag, content, rest⟩ := h
    exact ⟨span :: inside, outside, rfl, tag, .stray content holds, rest⟩

theorem OpenLayout.pushText {start stop : Nat} {part : Text}
    (h : OpenLayout source b.roots b.stack strays start) (holds : source.Holds ⟨start, stop⟩ part)
    (ne : part ≠ []) :
    OpenLayout source (b.push (.text ⟨start, stop⟩)).roots (b.push (.text ⟨start, stop⟩)).stack
      strays stop :=
  h.push [] fun _ _ _ hl => hl.addText holds ne

theorem OpenLayout.pushComment {start stop : Nat}
    {content : Text}
    (h : OpenLayout source b.roots b.stack strays start)
    (holds : source.Holds ⟨start, stop⟩ (Token.comment content).lexeme) :
    OpenLayout source (b.push (.comment ⟨start, stop⟩)).roots
      (b.push (.comment ⟨start, stop⟩)).stack strays stop :=
  h.push [] fun _ _ _ hl => .comment hl holds

/-- An element that is complete goes into the innermost open one. -/
theorem OpenLayout.pushElement (inside : List Span)
    {tag : StartTag} {children : List Node} {innerStop stop : Nat}
    (h : OpenLayout source b.roots b.stack strays tag.range.start) (read : tag.IsRead source)
    (content : Layout source tag.range.stop children.reverse inside innerStop)
    (le : innerStop ≤ stop) (ends : source.isBoundary stop = true) :
    OpenLayout source (b.push (tag.element children innerStop stop)).roots
      (b.push (tag.element children innerStop stop)).stack (inside ++ strays) stop :=
  h.push inside fun _ _ _ hl => .element hl read content le ends

/-- An element without nodes in it goes into the innermost open one. -/
theorem OpenLayout.pushLeaf {tag : StartTag}
    (h : OpenLayout source b.roots b.stack strays tag.range.start) (read : tag.IsRead source) :
    OpenLayout source (b.push (tag.element [] tag.range.stop tag.range.stop)).roots
      (b.push (tag.element [] tag.range.stop tag.range.stop)).stack strays tag.range.stop :=
  h.pushElement [] read (.nil _) (Nat.le_refl _) read.isBoundary_stop

/-! ### Elements that end -/

/-- The innermost open element goes into the one around it when it ends. -/
theorem OpenLayout.closeInnermost {innerStop stop : Nat}
    (h : OpenLayout source b.roots b.stack strays innerStop) (le : innerStop ≤ stop)
    (ends : source.isBoundary stop = true) (ne : b.stack ≠ []) :
    OpenLayout source (b.closeInnermost innerStop stop).roots
      (b.closeInnermost innerStop stop).stack strays stop := by
  rcases hs : b.stack with _ | ⟨e, stack⟩
  · exact absurd hs ne
  · rw [hs] at h
    obtain ⟨inside, outside, rfl, tag, content, rest⟩ := h
    have hc : b.closeInnermost innerStop stop =
        Builder.push (e.close innerStop stop) { b with stack := stack } := by
      simp [Builder.closeInnermost, hs]
    rw [hc]
    refine OpenLayout.pushElement inside rest tag ?_ le ends
    rwa [List.reverse_reverse]

@[simp] theorem Builder.length_stack_push (node : Node) (b : Builder tokenizer source) :
    (b.push node).stack.length = b.stack.length := by
  unfold Builder.push
  split <;> simp_all

/-- Ending an element takes it off the stack. -/
@[simp] theorem Builder.length_stack_closeInnermost (i s : Nat) (b : Builder tokenizer source) :
    (b.closeInnermost i s).stack.length = b.stack.length - 1 := by
  unfold Builder.closeInnermost
  split <;> simp_all

@[simp] theorem Builder.length_stack_closeAt (offset n : Nat) (b : Builder tokenizer source) :
    (b.closeAt offset n).stack.length = b.stack.length - n := by
  induction n generalizing b with
  | zero => rfl
  | succ n ih =>
    rw [Builder.closeAt, ih, length_stack_closeInnermost]
    omega

@[simp] theorem Builder.problems_push (node : Node) (b : Builder tokenizer source) :
    (b.push node).problems = b.problems := by
  unfold Builder.push
  split <;> rfl

@[simp] theorem Builder.problems_closeInnermost (i s : Nat) (b : Builder tokenizer source) :
    (b.closeInnermost i s).problems = b.problems := by
  unfold Builder.closeInnermost
  split <;> simp

@[simp] theorem Builder.problems_closeAt (offset n : Nat) (b : Builder tokenizer source) :
    (b.closeAt offset n).problems = b.problems := by
  induction n generalizing b with
  | zero => rfl
  | succ n ih => rw [Builder.closeAt, ih, problems_closeInnermost]

/-- Elements that end without an end tag take no characters. -/
theorem OpenLayout.closeAt {offset : Nat} (n : Nat)
    (h : OpenLayout source b.roots b.stack strays offset) (ends : source.isBoundary offset = true) :
    OpenLayout source (b.closeAt offset n).roots (b.closeAt offset n).stack strays offset := by
  induction n generalizing b with
  | zero => exact h
  | succ n ih =>
    rw [Builder.closeAt]
    apply ih
    by_cases ne : b.stack = []
    · have hc : b.closeInnermost offset offset = b := by simp [Builder.closeInnermost, ne]
      rwa [hc]
    · exact h.closeInnermost (Nat.le_refl offset) ends ne

/-- An end tag ends elements or is stray. -/
theorem OpenLayout.closeNamed {range : Span} {name written others : Text}
    (h : OpenLayout source b.roots b.stack (strayTags b.problems) range.start)
    (holds : source.Holds range (Token.endTag written others).lexeme) :
    OpenLayout source (b.closeNamed name range).roots (b.closeNamed name range).stack
      (strayTags (b.closeNamed name range).problems) range.stop := by
  unfold Builder.closeNamed
  split
  · next n hn =>
    have hlt : n < b.stack.length := by
      rw [List.findIdx?_eq_some_iff_getElem] at hn
      exact hn.1
    simp only [Builder.problems_closeInnermost, Builder.problems_closeAt]
    refine (h.closeAt n holds.isBoundary_start).closeInnermost holds.start_le_stop
      holds.isBoundary_stop ?_
    intro he
    have hl := Builder.length_stack_closeAt range.start n b
    rw [he, List.length_nil] at hl
    omega
  · exact h.addStray holds

@[simp] theorem Builder.rest_push (node : Node) (b : Builder tokenizer source) :
    (b.push node).rest = b.rest := by
  unfold Builder.push
  split <;> rfl

@[simp] theorem Builder.rest_closeInnermost (i s : Nat) (b : Builder tokenizer source) :
    (b.closeInnermost i s).rest = b.rest := by
  unfold Builder.closeInnermost
  split
  · rfl
  · exact rest_push _ _

@[simp] theorem Builder.rest_closeAt (offset n : Nat) (b : Builder tokenizer source) :
    (b.closeAt offset n).rest = b.rest := by
  induction n generalizing b with
  | zero => rfl
  | succ n ih => rw [Builder.closeAt, ih, rest_closeInnermost]

@[simp] theorem Builder.rest_closeNamed (name : Text) (range : Span)
    (b : Builder tokenizer source) : (b.closeNamed name range).rest = b.rest := by
  unfold Builder.closeNamed
  split
  · simp
  · rfl

/-! ### Steps -/

/-- What a builder has read is laid out, and what is left stands behind it. -/
structure Builder.LaidOut (b : Builder tokenizer source) : Prop where
  ahead : source.Holds ⟨b.offset, source.size⟩ b.rest
  behind : OpenLayout source b.roots b.stack (strayTags b.problems) b.offset

/-- A part of a text without byte order marks does not start with one. -/
theorem head?_dropBytes_ne (mark : byteOrderMark ∉ source) (offset : Nat) :
    (source.dropBytes offset).head? ≠ some byteOrderMark := by
  intro h
  apply mark
  rw [← Text.takeBytes_append_dropBytes offset source]
  exact List.mem_append_right _ (List.mem_of_head? h)

/-- Without byte order marks, reading goes on with what stands at the offset. -/
theorem Builder.exists_of_restart {offset : Nat} {b b' : Builder tokenizer source}
    (mark : byteOrderMark ∉ source) (hle : offset ≤ source.size)
    (h : b.restart offset = .ok b') :
    ∃ reader within, b' = { b with base := offset, reader, within } ∧
      source.isBoundary offset = true ∧ tokenizer.position reader = 0 ∧
      tokenizer.rest reader = source.dropBytes offset := by
  have hmin := Nat.min_eq_left hle
  unfold restart at h
  dsimp only at h
  split at h
  · cases h
  · next u hcheck =>
    cases h
    have hboundary := Text.isBoundary_of_checkBoundary hcheck
    rw [hmin] at hboundary
    refine ⟨_, tokenizer.within_ofText hboundary, ?_, hboundary, tokenizer.position_ofText _,
      tokenizer.rest_ofText (head?_dropBytes_ne mark _)⟩
    simp only [hmin]

/-- Reading that goes on at an offset to which everything is laid out keeps it so. -/
theorem Builder.LaidOut.restart {offset : Nat} {b b' : Builder tokenizer source}
    (mark : byteOrderMark ∉ source) (hle : offset ≤ source.size)
    (h : OpenLayout source b.roots b.stack (strayTags b.problems) offset)
    (hs : b.restart offset = .ok b') : b'.LaidOut := by
  obtain ⟨reader, within, rfl, hboundary, hposition, hrest⟩ := exists_of_restart mark hle hs
  have hoffset : Builder.offset { b with base := offset, reader, within } = offset := by
    rw [Builder.offset, hposition, Nat.add_zero]
  refine ⟨?_, by rwa [hoffset]⟩
  rw [hoffset, Builder.rest, hrest]
  exact Text.holds_dropBytes hboundary

theorem Builder.laidOut_start (mark : byteOrderMark ∉ source) :
    (Builder.start tokenizer source).LaidOut := by
  have hrest : (Builder.start tokenizer source).rest = source :=
    tokenizer.rest_ofText fun h => mark (List.mem_of_head? h)
  refine ⟨?_, ?_⟩
  · rw [offset_start, hrest]
    exact ⟨[], [], (List.append_nil _).symm, by simp⟩
  · rw [offset_start]
    exact Layout.nil 0

/-- An element with raw text is complete, with its content as one text. -/
theorem Builder.LaidOut.pushRaw {name : Text} {tag : StartTag} {b b' : Builder tokenizer source}
    (mark : byteOrderMark ∉ source) (hname : '<' ∉ name) (read : tag.IsRead source)
    (h : OpenLayout source b.roots b.stack (strayTags b.problems) tag.range.start)
    (hs : b.pushRaw name tag = .ok b') : b'.LaidOut := by
  obtain ⟨found, content, hends, hcontent, hle, hstop, -⟩ :=
    RawText.exists_ends hname read.isBoundary_stop
  obtain ⟨_, hends', hs⟩ := exists_of_bind_eq_ok hs
  obtain rfl := Except.ok.inj (hends.symm.trans hends')
  refine LaidOut.restart mark (Text.le_size_of_isBoundary hstop) ?_ hs
  rw [problems_push]
  refine h.pushElement [] read ?_ hle hstop
  split
  · next hlt =>
    refine .text (.nil _) hcontent ?_ (by simp)
    rintro rfl
    exact Nat.ne_of_gt hlt hcontent.stop_eq
  · next hge =>
    have heq : found.1 = tag.range.stop :=
      Nat.le_antisymm (Nat.le_of_not_lt hge) hcontent.start_le_stop
    rw [heq]
    exact .nil _

/-- A node that is laid out is put behind what has been read. -/
theorem Builder.laidOut_push {node : Node} (ahead : source.Holds ⟨b.offset, source.size⟩ b.rest)
    (h : OpenLayout source (b.push node).roots (b.push node).stack (strayTags b.problems)
      b.offset) :
    (b.push node).LaidOut :=
  ⟨by rwa [offset_push, rest_push], by rwa [offset_push, problems_push]⟩

/-- A start tag begins an element or makes a complete one. -/
theorem Builder.LaidOut.openElement {tag : StartTag} {b b' : Builder tokenizer source}
    (mark : byteOrderMark ∉ source) (read : tag.IsRead source)
    (ahead : source.Holds ⟨b.offset, source.size⟩ b.rest) (place : b.offset = tag.range.stop)
    (h : OpenLayout source b.roots b.stack (strayTags b.problems) tag.range.start)
    (hs : b.openElement tag = .ok b') : b'.LaidOut := by
  obtain ⟨name, hname, hs⟩ := exists_of_bind_eq_ok hs
  split at hs
  · cases hs
    refine laidOut_push ahead ?_
    rw [place]
    exact h.pushLeaf read
  · split at hs
    · next hraw => exact LaidOut.pushRaw mark (RawText.not_mem_of_raw hraw) read h hs
    · cases hs
      refine ⟨ahead, [], _, rfl, read, ?_, h⟩
      rw [← place]
      exact .nil _

section Step

variable {b b' behind : Builder tokenizer source} {token : Token}

/-- What is read next stands in the text where the builder says. -/
theorem Builder.LaidOut.holds_next (h : b.LaidOut) (read : b.next = .ok (some (token, behind))) :
    source.Holds ⟨b.offset, behind.offset⟩ token.lexeme ∧
      source.Holds ⟨behind.offset, source.size⟩ behind.rest := by
  have holds := h.ahead
  rw [rest_of_next read] at holds
  rw [offset_of_next read]
  exact holds.split

/-- The `<` of a bare tag is a character of the text. -/
theorem Token.holds_angle {start stop : Nat} (hbare : token.isBare = true)
    (h : source.Holds ⟨start, stop⟩ token.lexeme) : source.Holds ⟨start, start + 1⟩ ['<'] := by
  have hangle : ∃ others, token.lexeme = ['<'] ++ others := by
    cases token with
    | text | comment => cases hbare
    | startTag | emptyTag | endTag => exact ⟨_, rfl⟩
  obtain ⟨others, hothers⟩ := hangle
  rw [hothers] at h
  exact h.split.1

/-- A tag whose parts are read has been read from its characters. -/
theorem StartTag.isRead_of_readTag {range : Span} {name others : Text} {tag : StartTag}
    (htoken : token = .startTag name others ∨ token = .emptyTag name others)
    (holds : source.Holds range token.lexeme)
    (htag : Builder.readTag source name.size range = .ok tag) :
    tag.IsRead source ∧ tag.range = range := by
  obtain rfl := range_of_readTag htag
  exact ⟨⟨token, name, others, htoken, holds, htag⟩, rfl⟩

/-- Every token that is added keeps what is read laid out. -/
theorem Builder.LaidOut.add (mark : byteOrderMark ∉ source) (h : b.LaidOut)
    (read : b.next = .ok (some (token, behind))) (hs : behind.add token b.offset = .ok b') :
    b'.LaidOut := by
  obtain ⟨holds, ahead⟩ := h.holds_next read
  have hopen :
      OpenLayout source behind.roots behind.stack (strayTags behind.problems) b.offset := by
    obtain ⟨reader, within, -, rfl⟩ := exists_of_next read
    exact h.behind
  unfold Builder.add at hs
  dsimp only at hs
  split at hs
  · next hbare =>
    have hangle := Token.holds_angle hbare holds
    refine LaidOut.restart mark hangle.stop_le_size ?_ hs
    rw [problems_push]
    exact hopen.pushText hangle (List.cons_ne_nil _ _)
  · cases token with
    | text first others =>
      cases hs
      exact laidOut_push ahead (hopen.pushText holds (Token.lexeme_ne_nil _))
    | comment content =>
      cases hs
      exact laidOut_push ahead (hopen.pushComment holds)
    | emptyTag name others =>
      obtain ⟨⟨_, nameSpan, attributes⟩, htag, hs⟩ := exists_of_bind_eq_ok hs
      obtain ⟨hread, rfl⟩ := StartTag.isRead_of_readTag (.inr rfl) holds htag
      cases hs
      exact laidOut_push ahead (hopen.pushLeaf hread)
    | startTag name others =>
      obtain ⟨⟨_, nameSpan, attributes⟩, htag, hs⟩ := exists_of_bind_eq_ok hs
      obtain ⟨hread, rfl⟩ := StartTag.isRead_of_readTag (.inl rfl) holds htag
      exact LaidOut.openElement mark hread ahead rfl hopen hs
    | endTag name others =>
      obtain ⟨written, hname, hs⟩ := exists_of_bind_eq_ok hs
      cases hs
      refine ⟨by rwa [offset_closeNamed, rest_closeNamed], ?_⟩
      rw [offset_closeNamed]
      exact OpenLayout.closeNamed hopen holds

/-- A token that is added is gone on behind. -/
theorem Builder.run_of_add (read : b.next = .ok (some (token, behind)))
    (added : behind.add token b.offset = .ok b') : b.run = b'.run := by
  rw [Builder.run]
  split
  · next hfail => cases read.symm.trans hfail
  · next hend => cases read.symm.trans hend
  · next hread =>
    cases read.symm.trans hread
    split
    · next herror => cases added.symm.trans herror
    · next hadd =>
      cases added.symm.trans hadd
      rfl

/-- Where a tokenizer fails, what it says is recorded, and the rest is text. -/
theorem Builder.run_of_error {failure : Failure} (read : b.next = .error failure) :
    b.run = .ok (b.keepRest failure) := by
  rw [Builder.run]
  split
  · next hfail =>
    cases read.symm.trans hfail
    rfl
  · next hend => cases read.symm.trans hend
  · next hread => cases read.symm.trans hread

/-- Where reading ends, nothing is added. -/
theorem Builder.run_of_end (read : b.next = .ok none) : b.run = .ok b := by
  rw [Builder.run]
  split
  · next hfail => cases read.symm.trans hfail
  · rfl
  · next hread => cases read.symm.trans hread

end Step

/-! ### Documents -/

/-- What every step preserves holds where reading ends, or where it keeps what it cannot read. -/
theorem Builder.run_induction {p : Builder tokenizer source → Prop}
    {b last : Builder tokenizer source}
    (step : ∀ (b b' behind : Builder tokenizer source) (token : Token), p b →
      b.next = .ok (some (token, behind)) → behind.add token b.offset = .ok b' → p b')
    (h : p b) (hrun : b.run = .ok last) :
    p last ∧ last.next = .ok none ∨
      ∃ kept failure, p kept ∧ kept.next = .error failure ∧ last = kept.keepRest failure := by
  fun_induction Builder.run b with
  | case1 b failure hread => exact .inr ⟨b, failure, h, hread, (Except.ok.inj hrun).symm⟩
  | case2 b hread =>
    obtain rfl := Except.ok.inj hrun
    exact .inl ⟨h, hread⟩
  | case3 b token behind hread e hadd => cases hrun
  | case4 b token behind hread next hadd hlt hle ih =>
    exact ih (step b next behind token h hread hadd) hrun

/-- Reading to the end lays out all of the text. -/
theorem Builder.LaidOut.run {b b' : Builder tokenizer source} (mark : byteOrderMark ∉ source)
    (h : b.LaidOut) (hr : b.run = .ok b') :
    OpenLayout source b'.roots b'.stack (strayTags b'.problems) source.size := by
  rcases run_induction (fun b b' behind token hb read added => hb.add mark read added) h hr with
    ⟨hlast, hend⟩ | ⟨kept, failure, hkept, -, rfl⟩
  · have hstop := hlast.ahead.stop_eq
    rw [rest_of_end hend] at hstop
    have heq : b'.offset = source.size := hstop.symm
    exact heq ▸ hlast.behind
  · have holds := hkept.ahead
    unfold keepRest
    dsimp only
    split
    · next hlt =>
      rw [problems_push]
      refine OpenLayout.pushText hkept.behind holds ?_
      intro hnil
      rw [hnil] at holds
      exact Nat.ne_of_gt hlt holds.stop_eq
    · next hge =>
      have heq : kept.offset = source.size :=
        Nat.le_antisymm kept.offset_le_size (Nat.le_of_not_lt hge)
      exact heq ▸ hkept.behind

/-- The document of a text without byte order marks is laid out over all of it. -/
theorem Document.layout {document : Document} (mark : byteOrderMark ∉ source)
    (h : Document.ofText tokenizer source = .ok document) :
    Layout source 0 document.nodes.reverse (strayTags document.problems).reverse source.size := by
  obtain ⟨last, hlast, h⟩ := exists_of_bind_eq_ok h
  cases h
  have hclosed := ((Builder.laidOut_start mark).run mark hlast).closeAt last.stack.length
    (Text.isBoundary_size source)
  have hstack : (last.closeAt source.size last.stack.length).stack = [] := by
    rw [← List.length_eq_zero_iff, length_stack_closeAt, Nat.sub_self]
  rw [hstack] at hclosed
  simp only [strayTags, List.filterMap_reverse, List.reverse_reverse, problems_closeAt]
  exact hclosed

end BoundTemplate.Markup
