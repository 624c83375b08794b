import BoundTemplate.Proofs.Markup.EndTag

/-!
# Where elements end

Every element of a document ends behind an end tag of its name, behind its start tag if it has no
content, or behind raw text. What ends without an end tag does so where its parent's content ends:
at the end of the text, or in front of an end tag of another name that ends an element around it.
As long as an element is open nothing in it has ended like that, so each node is known by where its
surroundings end, if they have ended.
-/

namespace BoundTemplate.Markup

open Builder

variable {tokenizer : Tokenizer} {source : Text}

/-! ### How elements end -/

/-- An end tag of a name stands at a span, and nothing but white space behind the name; it is met
there by a builder that reads the text. -/
structure EndTagAt (tokenizer : Tokenizer) (source : Text) (span : Span) (name : Text) : Prop where
  holds : ∃ gaps, source.Holds span (Token.endTag name gaps).lexeme ∧ gaps.all isGap = true
  met : ∃ (met : Builder tokenizer source) (others : Text) (behind : Builder tokenizer source),
    Meets met name others behind ∧ span = ⟨met.offset, behind.offset⟩

theorem EndTagAt.start_lt_stop {span : Span} {name : Text}
    (h : EndTagAt tokenizer source span name) : span.start < span.stop := by
  obtain ⟨gaps, holds, -⟩ := h.holds
  exact holds.start_lt_stop (Token.lexeme_ne_nil _)

/-- The tag in a span ends in a slash. -/
def SelfClosing (source : Text) (span : Span) : Prop :=
  ∃ tag, source.Holds span tag ∧ ['/', '>'] <:+ tag

/-- Where the content of an element or of the document ends, and the name in the end tag there, if
one stands there. -/
structure Limit where
  offset : Nat
  tag? : Option Text

/-- A node that is complete, in surroundings that have ended or are still open. Only in surroundings
that have ended there are elements without an end tag: they end where these do, and the end tag
there has another name. -/
inductive Complete (tokenizer : Tokenizer) (source : Text) : Option Limit → Node → Prop
  | text (limit : Option Limit) (span : Span) : Complete tokenizer source limit (.text span)
  | comment (limit : Option Limit) (span : Span) : Complete tokenizer source limit (.comment span)
  | leaf {limit : Option Limit} {range name inner : Span} {attributes : List Attribute}
      {written : Text} (named : source.Holds name written)
      (leaf : isOneOf voidNames written = true ∨ SelfClosing source ⟨range.start, inner.start⟩)
      (stop_eq : inner.stop = range.stop) :
      Complete tokenizer source limit (.element range name attributes inner [])
  | raw {limit : Option Limit} {range name inner : Span} {attributes : List Attribute}
      {children : List Node} {written : Text} (named : source.Holds name written)
      (raw : isOneOf rawNames written = true) (content : ∀ child ∈ children, ∃ s, child = .text s)
      (ends : inner.stop = range.stop ∨ RawText.EndTagAt source ⟨inner.stop, range.stop⟩ written) :
      Complete tokenizer source limit (.element range name attributes inner children)
  | tagged {limit : Option Limit} {range name inner : Span} {attributes : List Attribute}
      {children : List Node} {written closing : Text} (named : source.Holds name written)
      (marked : isOneOf rawNames written = false)
      (tag : EndTagAt tokenizer source ⟨inner.stop, range.stop⟩ closing)
      (same : written.sameLetters closing = true)
      (content : ∀ child ∈ children,
        Complete tokenizer source (some ⟨inner.stop, some closing⟩) child) :
      Complete tokenizer source limit (.element range name attributes inner children)
  | untagged {limit : Limit} {range name inner : Span} {attributes : List Attribute}
      {children : List Node} {written : Text} (named : source.Holds name written)
      (marked : isOneOf rawNames written = false) (innerStop_eq : inner.stop = limit.offset)
      (stop_eq : range.stop = limit.offset)
      (other : ∀ tag, limit.tag? = some tag → written.sameLetters tag = false)
      (content : ∀ child ∈ children, Complete tokenizer source (some limit) child) :
      Complete tokenizer source (some limit) (.element range name attributes inner children)

/-- What is complete in open surroundings stays so when they end. -/
theorem Complete.ended {node : Node} (limit : Option Limit)
    (h : Complete tokenizer source none node) : Complete tokenizer source limit node := by
  cases h with
  | text => exact .text limit _
  | comment => exact .comment limit _
  | leaf named leaf stop_eq => exact .leaf named leaf stop_eq
  | raw named raw content ends => exact .raw named raw content ends
  | tagged named marked tag same content => exact .tagged named marked tag same content

/-- A node that is put behind others is complete with them. -/
theorem Complete.addTo {limit : Option Limit} {node : Node} {elders : List Node}
    (h : Complete tokenizer source limit node)
    (helders : ∀ elder ∈ elders, Complete tokenizer source limit elder) :
    ∀ other ∈ node.addTo elders, Complete tokenizer source limit other := by
  intro other hother
  unfold Node.addTo at hother
  split at hother
  · split at hother
    · rcases List.mem_cons.1 hother with rfl | hmem
      · exact .text limit _
      · exact helders other (List.mem_cons_of_mem _ hmem)
    · rcases List.mem_cons.1 hother with rfl | hmem
      · exact h
      · exact helders other hmem
  · rcases List.mem_cons.1 hother with rfl | hmem
    · exact h
    · exact helders other hmem

/-! ### Open elements -/

/-- The nodes in each open element and outside of all are complete; only in the innermost one the
surroundings may count as ended. -/
def OpenComplete (tokenizer : Tokenizer) (source : Text) (limit : Option Limit)
    (roots : List Node) : List OpenElement → Prop
  | [] => ∀ node ∈ roots, Complete tokenizer source limit node
  | e :: stack => source.Holds e.tag.name e.name ∧ isOneOf rawNames e.name = false ∧
      (∀ child ∈ e.children, Complete tokenizer source limit child) ∧
      OpenComplete tokenizer source none roots stack

theorem OpenComplete.ended {roots : List Node} {stack : List OpenElement} (limit : Option Limit)
    (h : OpenComplete tokenizer source none roots stack) :
    OpenComplete tokenizer source limit roots stack := by
  cases stack with
  | nil => exact fun node hnode => (h node hnode).ended limit
  | cons e stack =>
    obtain ⟨named, marked, content, outer⟩ := h
    exact ⟨named, marked, fun child hchild => (content child hchild).ended limit, outer⟩

theorem OpenComplete.push {b : Builder tokenizer source} {limit : Option Limit} {node : Node}
    (h : OpenComplete tokenizer source limit b.roots b.stack)
    (hnode : Complete tokenizer source limit node) :
    OpenComplete tokenizer source limit (b.push node).roots (b.push node).stack := by
  rcases hstack : b.stack with _ | ⟨e, stack⟩
  · rw [hstack] at h
    have hpush : b.push node = { b with roots := node.addTo b.roots } := by
      simp [Builder.push, hstack]
    rw [hpush]
    simp only [hstack]
    exact hnode.addTo h
  · rw [hstack] at h
    obtain ⟨named, marked, content, outer⟩ := h
    have hpush : b.push node =
        { b with stack := { e with children := node.addTo e.children } :: stack } := by
      simp [Builder.push, hstack]
    rw [hpush]
    exact ⟨named, marked, hnode.addTo content, outer⟩

/-- The innermost open element ends without an end tag, where its surroundings do. -/
theorem OpenComplete.closeInnermost {b : Builder tokenizer source} {limit : Limit}
    (h : OpenComplete tokenizer source (some limit) b.roots b.stack)
    (other : ∀ e, b.stack.head? = some e → ∀ tag, limit.tag? = some tag →
      e.name.sameLetters tag = false) :
    let b' := b.closeInnermost limit.offset limit.offset
    OpenComplete tokenizer source (some limit) b'.roots b'.stack := by
  intro b'
  rcases hstack : b.stack with _ | ⟨e, stack⟩
  · have hsame : b' = b := by simp [b', Builder.closeInnermost, hstack]
    rw [hsame]
    exact h
  · rw [hstack] at h other
    obtain ⟨named, marked, content, outer⟩ := h
    have hclosed :
        b' = Builder.push (e.close limit.offset limit.offset) { b with stack := stack } := by
      simp [b', Builder.closeInnermost, hstack]
    rw [hclosed]
    refine OpenComplete.push (outer.ended _) (.untagged named marked rfl rfl (other e rfl) ?_)
    exact fun child hchild => content child (List.mem_reverse.1 hchild)

theorem Builder.names_push (node : Node) (b : Builder tokenizer source) :
    (b.push node).stack.map (·.name) = b.stack.map (·.name) := by
  unfold Builder.push
  split
  · rfl
  · next hstack =>
    rw [hstack]
    rfl

theorem Builder.names_closeInnermost (innerStop stop : Nat) (b : Builder tokenizer source) :
    (b.closeInnermost innerStop stop).stack.map (·.name) = (b.stack.map (·.name)).tail := by
  unfold Builder.closeInnermost
  split
  · next hstack =>
    rw [hstack]
    rfl
  · next hstack =>
    rw [names_push, hstack]
    rfl

/-- Some open elements end without end tags. -/
theorem OpenComplete.closeAt {b : Builder tokenizer source} {limit : Limit} (n : Nat)
    (h : OpenComplete tokenizer source (some limit) b.roots b.stack)
    (other : ∀ name ∈ (b.stack.map (·.name)).take n, ∀ tag, limit.tag? = some tag →
      name.sameLetters tag = false) :
    OpenComplete tokenizer source (some limit) (b.closeAt limit.offset n).roots
      (b.closeAt limit.offset n).stack := by
  induction n generalizing b with
  | zero => exact h
  | succ n ih =>
    rw [Builder.closeAt]
    refine ih (h.closeInnermost fun e he tag htag => other e.name ?_ tag htag) ?_
    · obtain ⟨stack, hstack⟩ := List.head?_eq_some_iff.1 he
      rw [hstack]
      exact List.mem_cons_self
    · intro name hname
      rw [names_closeInnermost, ← List.drop_one, List.take_drop] at hname
      exact other name (by simpa [Nat.add_comm] using List.mem_of_mem_drop hname)

/-- An end tag ends the nearest open element of its name, and what was opened after it without one;
then no surroundings have ended any more. -/
theorem OpenComplete.closeNamed {b : Builder tokenizer source} {range : Span} {closing : Text}
    (h : OpenComplete tokenizer source none b.roots b.stack)
    (tag : EndTagAt tokenizer source range closing) :
    let b' := b.closeNamed closing range
    OpenComplete tokenizer source none b'.roots b'.stack := by
  intro b'
  let limit : Limit := ⟨range.start, some closing⟩
  rcases exists_nearest closing b.stack with hnone | ⟨closed, e, outer, hstack, hclosed, he⟩
  · have hreport : b' = b.report range (.strayEndTag closing) := closeNamed_of_none range hnone
    rw [hreport]
    exact h
  · have hb' : b' = (b.closeAt limit.offset closed.length).closeInnermost range.start range.stop :=
      closeNamed_eq range hstack hclosed he
    have hbefore : OpenComplete tokenizer source (some limit)
        (b.closeAt limit.offset closed.length).roots
        (b.closeAt limit.offset closed.length).stack := by
      refine (h.ended (some limit)).closeAt closed.length ?_
      rintro name hname _ ⟨⟩
      rw [hstack, List.map_append, List.take_left' (List.length_map _)] at hname
      obtain ⟨d, hd, rfl⟩ := List.mem_map.1 hname
      exact hclosed d hd
    obtain ⟨children, hclose⟩ := closeAt_eq limit.offset b closed e outer
    rw [← hstack] at hclose
    rw [hclose] at hb' hbefore
    obtain ⟨named, marked, content, around⟩ := hbefore
    rw [hb']
    refine OpenComplete.push around (.tagged named marked tag he ?_)
    exact fun child hchild => content child (List.mem_reverse.1 hchild)

/-! ### Steps -/

/-- The name of a start tag is what an element is known by. -/
theorem StartTag.IsRead.holds_name {tag : StartTag} (h : tag.IsRead source) {written : Text}
    (hname : source.checkedSlice tag.name = .ok written) : source.Holds tag.name written := by
  obtain ⟨name, holds⟩ := exists_holds_name h
  rw [holds.checkedSlice_eq_ok] at hname
  exact Except.ok.inj hname ▸ holds

/-- Going on elsewhere in the text opens and ends no element. -/
theorem Builder.keeps_of_restart {offset : Nat} {b b' : Builder tokenizer source}
    (h : b.restart offset = .ok b') : b'.stack = b.stack ∧ b'.roots = b.roots := by
  unfold restart at h
  dsimp only at h
  split at h
  · cases h
  · cases h
    exact ⟨rfl, rfl⟩

/-- An element with raw text is complete. -/
theorem OpenComplete.pushRaw {tag : StartTag} {written : Text} {b b' : Builder tokenizer source}
    (h : OpenComplete tokenizer source none b.roots b.stack) (read : tag.IsRead source)
    (named : source.Holds tag.name written) (raw : isOneOf rawNames written = true)
    (hs : b.pushRaw written tag = .ok b') :
    OpenComplete tokenizer source none b'.roots b'.stack := by
  obtain ⟨found, content, hends, -, -, -, htag⟩ :=
    RawText.exists_ends (RawText.not_mem_of_raw raw) read.isBoundary_stop
  obtain ⟨_, hends', hs⟩ := exists_of_bind_eq_ok hs
  obtain rfl := Except.ok.inj (hends.symm.trans hends')
  obtain ⟨hstack, hroots⟩ := keeps_of_restart hs
  rw [hstack, hroots]
  refine h.push (.raw named raw ?_ ?_)
  · intro child hchild
    split at hchild
    · exact ⟨_, List.mem_singleton.1 hchild⟩
    · cases hchild
  · rcases htag with rfl | htag
    · exact .inl rfl
    · exact .inr htag

/-- A start tag opens an element, or makes one that is complete. -/
theorem OpenComplete.openElement {tag : StartTag} {b b' : Builder tokenizer source}
    (h : OpenComplete tokenizer source none b.roots b.stack) (read : tag.IsRead source)
    (hs : b.openElement tag = .ok b') : OpenComplete tokenizer source none b'.roots b'.stack := by
  obtain ⟨written, hname, hs⟩ := exists_of_bind_eq_ok hs
  have named := read.holds_name hname
  split at hs
  · next hvoid =>
    cases hs
    exact h.push (.leaf named (.inl hvoid) rfl)
  · split at hs
    · next hraw => exact h.pushRaw read named hraw hs
    · next hmarked =>
      cases hs
      exact ⟨named, Bool.eq_false_iff.2 hmarked, List.forall_mem_nil _, h⟩

/-- An end tag that is met stands where it is met. -/
theorem Builder.Meets.endTagAt {b behind : Builder tokenizer source} {closing others : Text}
    (mark : byteOrderMark ∉ source) (h : Meets b closing others behind) :
    EndTagAt tokenizer source ⟨b.offset, behind.offset⟩ closing := by
  obtain ⟨reader, within, hread, -⟩ := exists_of_next h.read
  refine ⟨⟨others, ((h.reached.laidOut mark).holds_next h.read).1, ?_⟩, b, others, behind, h, rfl⟩
  exact tokenizer.gaps_of_next hread

/-- Every token that is added keeps what has been read complete. -/
theorem OpenComplete.add {token : Token} {b b' behind : Builder tokenizer source}
    (mark : byteOrderMark ∉ source) (h : OpenComplete tokenizer source none b.roots b.stack)
    (reached : Reaches b) (read : b.next = .ok (some (token, behind)))
    (hs : behind.add token b.offset = .ok b') :
    OpenComplete tokenizer source none b'.roots b'.stack := by
  have holds := ((reached.laidOut mark).holds_next read).1
  obtain ⟨hstack, hroots, -⟩ := keeps_of_next read
  rw [← hstack, ← hroots] at h
  rcases exists_endTag_or token with ⟨closing, others, rfl, named⟩ | hne
  · have hmeets : Meets b closing others behind := ⟨reached, read, named⟩
    obtain rfl := Except.ok.inj ((hmeets.add mark).symm.trans hs)
    exact h.closeNamed (hmeets.endTagAt mark)
  unfold Builder.add at hs
  dsimp only at hs
  split at hs
  · obtain ⟨hstack', hroots'⟩ := keeps_of_restart hs
    rw [hstack', hroots']
    exact h.push (.text none _)
  · next hbare =>
    cases token with
    | text first others =>
      cases hs
      exact h.push (.text none _)
    | comment content =>
      cases hs
      exact h.push (.comment none _)
    | emptyTag name others =>
      obtain ⟨⟨_, nameSpan, attributes⟩, htag, hs⟩ := exists_of_bind_eq_ok hs
      obtain ⟨isRead, rfl⟩ := StartTag.isRead_of_readTag (.inr rfl) holds htag
      cases hs
      obtain ⟨written, named⟩ := exists_holds_name isRead
      have hslash : ['/', '>'] <:+ (Token.emptyTag name others).lexeme := List.suffix_append _ _
      exact h.push (.leaf named (.inr ⟨_, holds, hslash⟩) rfl)
    | startTag name others =>
      obtain ⟨⟨_, nameSpan, attributes⟩, htag, hs⟩ := exists_of_bind_eq_ok hs
      obtain ⟨isRead, rfl⟩ := StartTag.isRead_of_readTag (.inl rfl) holds htag
      exact h.openElement isRead hs
    | endTag closing others => exact absurd (hne closing others rfl) hbare

/-- In every state that reading goes through, all nodes are complete in surroundings that are
open. -/
theorem Builder.Reaches.openComplete {b : Builder tokenizer source}
    (mark : byteOrderMark ∉ source) (h : Reaches b) :
    OpenComplete tokenizer source none b.roots b.stack := by
  induction h with
  | start => exact List.forall_mem_nil _
  | step h read added ih => exact ih.add mark h read added

/-- What is kept of a text that cannot be read is complete. -/
theorem OpenComplete.keepRest {b : Builder tokenizer source} (failure : Failure)
    (h : OpenComplete tokenizer source none b.roots b.stack) :
    OpenComplete tokenizer source none (b.keepRest failure).roots (b.keepRest failure).stack := by
  unfold Builder.keepRest
  dsimp only
  split
  · exact OpenComplete.push (b := b.report _ _) h (.text none _)
  · exact h

/-- The nodes of a document are complete in surroundings that end with the text. -/
theorem Document.complete {document : Document} (mark : byteOrderMark ∉ source)
    (h : Document.ofText tokenizer source = .ok document) :
    ∀ node ∈ document.nodes, Complete tokenizer source (some ⟨source.size, none⟩) node := by
  obtain ⟨last, hlast, hnodes, -⟩ := Document.exists_run h
  have hopen : OpenComplete tokenizer source none last.roots last.stack := by
    rcases Reaches.start.run hlast with hreached | ⟨kept, failure, hkept, -, rfl⟩
    · exact hreached.openComplete mark
    · exact (hkept.openComplete mark).keepRest failure
  have hclosed := (hopen.ended (some ⟨source.size, none⟩)).closeAt last.stack.length
    fun name _ tag htag => nomatch htag
  have hstack : (last.closeAt source.size last.stack.length).stack = [] := by
    rw [← List.length_eq_zero_iff, length_stack_closeAt, Nat.sub_self]
  rw [hstack] at hclosed
  intro node hnode
  rw [hnodes, List.mem_reverse] at hnode
  exact hclosed node hnode

/-! ### Families -/

/-- The span of an element, and that of its content. -/
structure Bounds where
  range : Span
  inner : Span

/-- Nodes that have the same parent, or none, with the bounds of the elements around them, innermost
first. -/
inductive Family (roots : List Node) : List Bounds → List Node → Prop
  | roots : Family roots [] roots
  | children {around : List Bounds} {siblings children : List Node} {range name inner : Span}
      {attributes : List Attribute} (h : Family roots around siblings)
      (member : .element range name attributes inner children ∈ siblings) :
      Family roots (⟨range, inner⟩ :: around) children

/-- An element that ends at an offset without an end tag, and has a name, ends with the text, or
with the content of its parent and in front of an end tag of another name, which ends an element
around it. -/
def EndsWithout (tokenizer : Tokenizer) (source : Text) (around : List Bounds) (stop : Nat)
    (name : Text) : Prop :=
  stop = source.size ∨
    (∃ parent, around.head? = some parent ∧ parent.inner.stop = stop) ∧
      ∃ bounds ∈ around, bounds.inner.stop = stop ∧ ∃ closing,
        EndTagAt tokenizer source ⟨bounds.inner.stop, bounds.range.stop⟩ closing ∧
          name.sameLetters closing = false

/-- How an element of a name ends, in the elements around it. -/
structure Ends (tokenizer : Tokenizer) (source : Text) (around : List Bounds) (range inner : Span)
    (name : Text) : Prop where
  le : inner.stop ≤ range.stop
  tagged : inner.stop < range.stop → isOneOf rawNames name = false →
    ∃ closing, EndTagAt tokenizer source ⟨inner.stop, range.stop⟩ closing ∧
      name.sameLetters closing = true
  raw : inner.stop < range.stop → isOneOf rawNames name = true →
    RawText.EndTagAt source ⟨inner.stop, range.stop⟩ name
  untagged : inner.stop = range.stop → isOneOf voidNames name = false →
    isOneOf rawNames name = false → ¬SelfClosing source ⟨range.start, inner.start⟩ →
    EndsWithout tokenizer source around range.stop name

/-- The surroundings of some siblings end at an offset: with the text, or with the content of their
parent, in front of an end tag that ends an element around them. -/
structure Limits (tokenizer : Tokenizer) (source : Text) (around : List Bounds)
    (limit : Limit) : Prop where
  untagged : limit.tag? = none → limit.offset = source.size
  root : around = [] → limit.offset = source.size
  parent : ∀ parent, around.head? = some parent → parent.inner.stop = limit.offset
  tagged : ∀ closing, limit.tag? = some closing → ∃ bounds ∈ around,
    bounds.inner.stop = limit.offset ∧
      EndTagAt tokenizer source ⟨bounds.inner.stop, bounds.range.stop⟩ closing

/-- What has another name than the end tag of its surroundings, if they have one, ends with them
without an end tag. -/
theorem Limits.endsWithout {around : List Bounds} {limit : Limit} {name : Text}
    (limits : Limits tokenizer source around limit)
    (other : ∀ tag, limit.tag? = some tag → name.sameLetters tag = false) :
    EndsWithout tokenizer source around limit.offset name := by
  cases htag : limit.tag? with
  | none => exact .inl (limits.untagged htag)
  | some tag =>
    cases around with
    | nil => exact .inl (limits.root rfl)
    | cons parent around =>
      obtain ⟨bounds, hmem, hstop, hclosing⟩ := limits.tagged tag htag
      exact .inr ⟨⟨parent, rfl, limits.parent parent rfl⟩, bounds, hmem, hstop, tag, hclosing,
        other tag htag⟩

/-- An element that is complete ends in one of these ways. -/
theorem Complete.exists_ends {around : List Bounds} {limit : Limit} {range name inner : Span}
    {attributes : List Attribute} {children : List Node}
    (limits : Limits tokenizer source around limit)
    (h : Complete tokenizer source (some limit) (.element range name attributes inner children)) :
    ∃ written, source.Holds name written ∧ Ends tokenizer source around range inner written := by
  cases h with
  | @leaf _ _ _ _ _ written named leaf stop_eq =>
    refine ⟨written, named, Nat.le_of_eq stop_eq, fun hlt => ?_, fun hlt => ?_,
      fun _ hvoid _ hopen => ?_⟩
    · exact absurd stop_eq (Nat.ne_of_lt hlt)
    · exact absurd stop_eq (Nat.ne_of_lt hlt)
    · rw [hvoid] at leaf
      exact absurd (leaf.resolve_left Bool.false_ne_true) hopen
  | @raw _ _ _ _ _ _ written named raw content ends =>
    refine ⟨written, named, ?_, fun _ hmarked => ?_, fun hlt _ => ?_, fun _ _ hmarked => ?_⟩
    · rcases ends with heq | ⟨name, more, holds, -⟩
      · exact Nat.le_of_eq heq
      · exact holds.start_le_stop
    · exact absurd (raw.symm.trans hmarked) (by decide)
    · exact ends.resolve_left (Nat.ne_of_lt hlt)
    · exact absurd (raw.symm.trans hmarked) (by decide)
  | @tagged _ _ _ _ _ _ written closing named marked tag same content =>
    have hlt : inner.stop < range.stop := tag.start_lt_stop
    refine ⟨written, named, Nat.le_of_lt hlt, fun _ _ => ⟨closing, tag, same⟩, fun _ hraw => ?_,
      fun heq => ?_⟩
    · exact absurd (hraw.symm.trans marked) (by decide)
    · exact absurd heq (Nat.ne_of_lt hlt)
  | @untagged _ _ _ _ _ _ written named marked innerStop_eq stop_eq other content =>
    have heq : inner.stop = range.stop := innerStop_eq.trans stop_eq.symm
    refine ⟨written, named, Nat.le_of_eq heq, fun hlt => ?_, fun hlt => ?_, fun _ _ _ _ => ?_⟩
    · exact absurd heq (Nat.ne_of_lt hlt)
    · exact absurd heq (Nat.ne_of_lt hlt)
    · exact stop_eq ▸ limits.endsWithout other

/-- In a document all siblings are texts, or complete where their surroundings end. -/
theorem Family.complete {roots : List Node} {around : List Bounds} {siblings : List Node}
    (hroots : ∀ node ∈ roots, Complete tokenizer source (some ⟨source.size, none⟩) node)
    (h : Family roots around siblings) :
    (∀ node ∈ siblings, ∃ s, node = .text s) ∨
      ∃ limit, Limits tokenizer source around limit ∧
        ∀ node ∈ siblings, Complete tokenizer source (some limit) node := by
  induction h with
  | roots =>
    exact .inr ⟨⟨source.size, none⟩, ⟨fun _ => rfl, fun _ => rfl, by simp, by simp⟩, hroots⟩
  | children h member ih =>
    rcases ih with htexts | ⟨limit, limits, hcomplete⟩
    · obtain ⟨s, hs⟩ := htexts _ member
      cases hs
    cases hcomplete _ member with
    | leaf => exact .inl (List.forall_mem_nil _)
    | raw _ _ content => exact .inl content
    | tagged _ _ tag _ content =>
      refine .inr ⟨_, ⟨fun hnone => absurd hnone (by simp), nofun, ?_, ?_⟩, content⟩
      · rintro parent ⟨⟩
        rfl
      · rintro closing ⟨⟩
        exact ⟨_, List.mem_cons_self, rfl, tag⟩
    | untagged _ _ innerStop_eq _ _ content =>
      refine .inr ⟨limit, ⟨limits.untagged, nofun, ?_, fun name hname => ?_⟩, content⟩
      · rintro parent ⟨⟩
        exact innerStop_eq
      · obtain ⟨bounds, hmem, htag⟩ := limits.tagged name hname
        exact ⟨bounds, List.mem_cons_of_mem _ hmem, htag⟩

/-! ### End tags and the elements that they end -/

/-- The elements that are open are known by what stands at their names. -/
theorem OpenComplete.holds_name {limit : Option Limit} {roots : List Node}
    {stack : List OpenElement} (h : OpenComplete tokenizer source limit roots stack) :
    ∀ e ∈ stack, source.Holds e.tag.name e.name := by
  induction stack generalizing limit with
  | nil => exact List.forall_mem_nil _
  | cons e stack ih =>
    obtain ⟨named, -, -, outer⟩ := h
    exact List.forall_mem_cons.2 ⟨named, ih outer⟩

/-- What becomes of a builder that meets an end tag: the nearest open element of its name becomes a
node that goes through the end tag, with those opened after it in it. If there is none, the end tag
is recorded, and all that is open stays open. -/
structure Builder.Answers (b : Builder tokenizer source) (name : Text)
    (behind b' : Builder tokenizer source) : Prop where
  named : ∀ e ∈ b.stack, source.Holds e.tag.name e.name
  nearest : ∀ (closed : List OpenElement) (e : OpenElement) (outer : List OpenElement),
    b.stack = closed ++ e :: outer →
    (∀ d ∈ closed, d.name.sameLetters name = false) →
    e.name.sameLetters name = true →
    ∃ children, b' =
      push (e.tag.element children b.offset behind.offset) { behind with stack := outer }
  stray : (∀ e ∈ b.stack, e.name.sameLetters name = false) →
    b' = { behind with
      problems := (⟨b.offset, behind.offset⟩, .strayEndTag name) :: b.problems }

theorem Builder.Meets.answers {b behind : Builder tokenizer source} {name others : Text}
    (mark : byteOrderMark ∉ source) (h : Meets b name others behind) :
    ∃ b', behind.add (.endTag name others) b.offset = .ok b' ∧ b.Answers name behind b' := by
  obtain ⟨hstack, -, hproblems⟩ := keeps_of_next h.read
  refine ⟨_, h.add mark, (h.reached.openComplete mark).holds_name,
    fun _ _ _ hopen hclosed he => ?_, fun hnone => ?_⟩
  · exact closeNamed_of_nearest _ (hstack.trans hopen) hclosed he
  · rw [closeNamed_of_none _ (hstack ▸ hnone), Builder.report, hproblems]

/-- A text without byte order marks has a document in which every element ends with an end tag of
its name, as raw text does, or without one where its surroundings end. Every end tag that reading
meets ends the nearest open element of its name; the document records those that met none. -/
theorem Document.ends_of_end_tags (tokenizer : Tokenizer) (mark : byteOrderMark ∉ source) :
    ∃ document, Document.ofText tokenizer source = .ok document ∧
      (∀ (around : List Bounds) (siblings : List Node), Family document.nodes around siblings →
        ∀ (range name : Span) (attributes : List Attribute) (inner : Span) (children : List Node),
          .element range name attributes inner children ∈ siblings →
          ∃ written, source.Holds name written ∧
            Ends tokenizer source around range inner written) ∧
      (∀ (b : Builder tokenizer source) (name others : Text) (behind : Builder tokenizer source),
        Meets b name others behind →
        ∃ b', behind.add (.endTag name others) b.offset = .ok b' ∧ b.Answers name behind b') ∧
      ∀ (range : Span) (name : Text), (range, .strayEndTag name) ∈ document.problems ↔
        ∃ (met : Builder tokenizer source) (others : Text) (behind : Builder tokenizer source),
          Strays met name others behind ∧ range = ⟨met.offset, behind.offset⟩ := by
  obtain ⟨document, hdocument⟩ := Document.exists_ofText tokenizer mark
  refine ⟨document, hdocument, fun around siblings hfamily range name attributes inner children
    hmem => ?_, fun b name others behind hmeets => hmeets.answers mark,
    Document.mem_problems_iff_strays mark hdocument⟩
  rcases hfamily.complete (Document.complete mark hdocument) with htexts | ⟨limit, limits, hall⟩
  · obtain ⟨s, hs⟩ := htexts _ hmem
    cases hs
  · exact (hall _ hmem).exists_ends limits

/-- A paragraph and the element in it end at an end tag in capitals, and one more end tag is
recorded. -/
theorem Document.ends_of_misnested_tags :
    let source : Text := "<p><b></P></i>".toList
    let p : OpenElement := ⟨⟨⟨0, 3⟩, ⟨1, 2⟩, []⟩, ['p'], []⟩
    let b : OpenElement := ⟨⟨⟨3, 6⟩, ⟨4, 5⟩, []⟩, ['b'], []⟩
    let met : Builder .standard source := ⟨0, ⟨"</P></i>".toList, 6⟩, [b, p], [], [], by decide⟩
    let behind : Builder .standard source := ⟨0, ⟨"</i>".toList, 10⟩, [b, p], [], [], by decide⟩
    ∃ document, Document.ofText .standard source = .ok document ∧
      (⟨10, 14⟩, .strayEndTag ['i']) ∈ document.problems ∧ Reaches met ∧
      ∃ children, behind.add (.endTag ['P'] []) met.offset =
        .ok { behind with stack := [], roots := [p.tag.element children 6 10] } := by
  intro source p b met behind
  have hp : readTag source 1 ⟨0, 3⟩ = .ok p.tag := readTag_of_bare rfl
  have hb : readTag source 1 ⟨3, 6⟩ = .ok b.tag := readTag_of_bare rfl
  let opened : Builder .standard source := ⟨0, ⟨"<b></P></i>".toList, 3⟩, [p], [], [], by decide⟩
  have hfirst : Reaches opened :=
    .step .start rfl (add_startTag rfl hp rfl (by decide) (by decide))
  have hmet : Reaches met :=
    .step hfirst rfl (add_startTag rfl hb rfl (by decide) (by decide))
  obtain ⟨document, hdocument, -, hanswers, hrecorded⟩ :=
    @Document.ends_of_end_tags source .standard (by decide)
  obtain ⟨b', hadd, hanswer⟩ := hanswers met ['P'] [] behind ⟨hmet, rfl, rfl⟩
  obtain ⟨children, rfl⟩ := hanswer.nearest [b] p [] rfl (by decide) (by decide)
  have hreached := hmet.step rfl hadd
  have hstrays : Strays _ ['i'] [] _ := ⟨⟨hreached, rfl, rfl⟩, List.forall_mem_nil _⟩
  have hrecorded' := (hrecorded ⟨10, 14⟩ ['i']).2 ⟨_, [], _, hstrays, rfl⟩
  exact ⟨document, hdocument, hrecorded', hmet, children, hadd⟩

end BoundTemplate.Markup
