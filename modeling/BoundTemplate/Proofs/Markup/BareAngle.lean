import BoundTemplate.Markup.Lexer
import BoundTemplate.Proofs.Markup.Completion

/-!
# Bare angles

A `<` that begins neither a tag nor other markup is one character of text, and reading goes
on behind it. It is taken so only where a tag could end behind it: with no `>` outside of
quotes in all that follows, reading stops at the `<`, records a tag that is not closed, and
keeps everything from there as text.
-/

namespace BoundTemplate.Markup

variable {tokenizer : Tokenizer} {source t : Text}

/-! ### Tokens -/

namespace Token

/-- Whether a `<` in front of a text begins a tag, a comment, a declaration or an instruction. -/
def opensMarkup (t : Text) : Bool :=
  t.head?.any fun c => c.isAlpha || c == '/' || c == '!' || c == '?'

/-- A start tag, or the tag of an element without content. -/
def BeginsElement (token : Token) : Prop :=
  ∃ name others, token = .startTag name others ∨ token = .emptyTag name others

/-- A tag that stands at a `<` that begins no markup has no name. -/
theorem isBare_of_not_opensMarkup {token : Token} {rest : Text} (h : opensMarkup t = false)
    (htag : token.BeginsElement) (ht : '<' :: t = token.lexeme ++ rest) : token.isBare = true := by
  obtain ⟨name, others, htoken⟩ := htag
  obtain ⟨more, hlexeme⟩ := exists_lexeme_eq htoken
  have hname : isTagName name = false := by
    rw [hlexeme, List.singleton_append, List.cons_append] at ht
    obtain ⟨-, rfl⟩ := List.cons.inj ht
    cases name with
    | nil => rfl
    | cons c name =>
      simp only [opensMarkup, List.cons_append, List.head?_cons, Option.any_some,
        Bool.or_eq_false_iff] at h
      exact h.1.1.1
  rcases htoken with rfl | rfl
  · rw [isBare, hname]
    rfl
  · rw [isBare, hname]
    rfl

end Token

/-- How a tokenizer reads the tag at a `<` behind which no other markup is told: it looks for a `>`
outside of quotes, whatever the tag begins with, and without one it fails at the `<`. -/
structure Tokenizer.ReadsTags (tokenizer : Tokenizer) : Prop where
  closed {r : tokenizer.Reader} {t body : Text} (ahead : tokenizer.rest r = '<' :: t)
    (other : ∀ c, t.head? = some c → c ≠ '/' ∧ c ≠ '!' ∧ c ≠ '?')
    (ends : Token.beforeTagEnd? none t = some body) :
    ∃ token r', tokenizer.next r = .ok (some (token, r')) ∧ token.BeginsElement
  unclosed {r : tokenizer.Reader} {t : Text} (ahead : tokenizer.rest r = '<' :: t)
    (other : ∀ c, t.head? = some c → c ≠ '/' ∧ c ≠ '!' ∧ c ≠ '?')
    (ends : Token.beforeTagEnd? none t = none) :
    ∃ message, tokenizer.next r = .error ⟨message, tokenizer.position r⟩

/-- The lexer looks for the end of every tag. -/
theorem Tokenizer.readsTags_standard : Tokenizer.standard.ReadsTags := by
  have hread {t : Text} (other : ∀ c, t.head? = some c → c ≠ '/' ∧ c ≠ '!' ∧ c ≠ '?') :
      Lexer.read '<' t = Lexer.readStartTag t := by
    rw [Lexer.read, if_pos rfl]
    unfold Lexer.readMarkup
    split
    · exact absurd rfl (other _ rfl).2.1
    · exact absurd rfl (other _ rfl).2.2
    · exact absurd rfl (other _ rfl).1
    · rfl
  constructor
  · intro r t body ahead other ends
    have htag := hread other
    rw [Lexer.readStartTag, ends] at htag
    refine ⟨_, _, Lexer.next_of_read ahead htag, ?_⟩
    split
    · exact ⟨_, _, .inr rfl⟩
    · exact ⟨_, _, .inl rfl⟩
  · intro r t ahead other ends
    have hfail := hread other
    rw [Lexer.readStartTag, ends] at hfail
    exact ⟨_, Lexer.next_of_read_error ahead hfail⟩

/-! ### Builders -/

namespace Builder

variable {b b' behind : Builder tokenizer source} {token : Token}

/-- The builders that reading a text goes through. -/
inductive Reaches : Builder tokenizer source → Prop
  | start : Reaches (Builder.start tokenizer source)
  | step {b b' behind : Builder tokenizer source} {token : Token} (h : Reaches b)
      (read : b.next = .ok (some (token, behind))) (added : behind.add token b.offset = .ok b') :
      Reaches b'

/-- Without byte order marks, every builder that reading goes through stands where it says. -/
theorem Reaches.laidOut (mark : byteOrderMark ∉ source) (h : Reaches b) : b.LaidOut := by
  induction h with
  | start => exact laidOut_start mark
  | step _ read added ih => exact ih.add mark read added

/-- The nodes in the innermost open element, or outside of all elements, latest first. -/
def innermost (b : Builder tokenizer source) : List Node :=
  match b.stack with
  | [] => b.roots
  | e :: _ => e.children

@[simp] theorem innermost_push (node : Node) (b : Builder tokenizer source) :
    (b.push node).innermost = node.addTo b.innermost := by
  rcases hstack : b.stack with _ | ⟨e, stack⟩
  · simp only [push, innermost, hstack]
  · simp only [push, innermost, hstack]

/-- A byte belongs to a text among some nodes. -/
def TextAt (nodes : List Node) (n : Nat) : Prop :=
  ∃ s : Span, Node.text s ∈ nodes ∧ s.start ≤ n ∧ n < s.stop

/-- A byte that is put behind nodes as text is the only one that their texts gain. -/
theorem textAt_addTo {nodes : List Node} (offset : Nat)
    (hforward : ∀ s, nodes.head? = some (.text s) → s.start ≤ s.stop) (n : Nat) :
    TextAt ((Node.text ⟨offset, offset + 1⟩).addTo nodes) n ↔ TextAt nodes n ∨ n = offset := by
  have hbehind : TextAt (.text ⟨offset, offset + 1⟩ :: nodes) n ↔ TextAt nodes n ∨ n = offset := by
    constructor
    · rintro ⟨s, hs, hstart, hstop⟩
      rcases List.mem_cons.1 hs with heq | hs
      · cases heq
        exact .inr (by dsimp only at hstart hstop; omega)
      · exact .inl ⟨s, hs, hstart, hstop⟩
    · rintro (⟨s, hs, hstart, hstop⟩ | rfl)
      · exact ⟨s, List.mem_cons_of_mem _ hs, hstart, hstop⟩
      · exact ⟨⟨n, n + 1⟩, List.mem_cons_self, Nat.le_refl n, Nat.lt_succ_self n⟩
  unfold Node.addTo
  split
  · next s last others heq =>
    cases heq
    have hlast := hforward last rfl
    split
    · next htouch =>
      dsimp only at htouch
      constructor
      · rintro ⟨s, hs, hstart, hstop⟩
        rcases List.mem_cons.1 hs with heq | hs
        · cases heq
          dsimp only at hstart hstop
          by_cases hn : n = offset
          · exact .inr hn
          · exact .inl ⟨last, List.mem_cons_self, hstart, by omega⟩
        · exact .inl ⟨s, List.mem_cons_of_mem _ hs, hstart, hstop⟩
      · rintro (⟨s, hs, hstart, hstop⟩ | rfl)
        · rcases List.mem_cons.1 hs with heq | hs
          · cases heq
            exact ⟨⟨last.start, offset + 1⟩, List.mem_cons_self, hstart, by dsimp only; omega⟩
          · exact ⟨s, List.mem_cons_of_mem _ hs, hstart, hstop⟩
        · exact ⟨⟨last.start, n + 1⟩, List.mem_cons_self, by dsimp only; omega,
            Nat.lt_succ_self n⟩
    · exact hbehind
  · exact hbehind

/-- A text that is laid out does not go back. -/
theorem forward_of_layout {start stop : Nat} {nodes : List Node} {strays : List Span}
    (h : Layout source start nodes strays stop) (s : Span)
    (hs : nodes.head? = some (.text s)) : s.start ≤ s.stop := by
  induction h with
  | nil => cases hs
  | text _ holds =>
    cases hs
    exact holds.start_le_stop
  | comment | element => cases hs
  | stray _ _ ih => exact ih hs

/-- The nodes in the innermost open element are laid out. -/
theorem LaidOut.layout_innermost (h : b.LaidOut) :
    ∃ start strays stop, Layout source start b.innermost strays stop := by
  have hopen := h.behind
  unfold innermost
  split
  · next hstack =>
    rw [hstack] at hopen
    exact ⟨0, _, _, hopen⟩
  · next e stack hstack =>
    rw [hstack] at hopen
    obtain ⟨inside, -, -, -, content, -⟩ := hopen
    exact ⟨_, inside, _, content⟩

/-- Where reading goes on does not depend on what has been read in front. -/
theorem restart_push_eq (read : b.next = .ok (some (token, behind))) (node : Node) (offset : Nat) :
    (behind.push node).restart offset = (b.push node).restart offset := by
  obtain ⟨reader, within, -, rfl⟩ := exists_of_next read
  rcases hstack : b.stack with _ | ⟨e, stack⟩
  · simp only [push, hstack]
    rfl
  · simp only [push, hstack]
    rfl

/-- At a bare tag its `<` is kept as text, and reading goes on behind that. -/
theorem run_of_bare (read : b.next = .ok (some (token, behind))) (hbare : token.isBare = true) :
    b.run = (b.push (.text ⟨b.offset, b.offset + 1⟩)).restart (b.offset + 1) >>= run := by
  have hadd : behind.add token b.offset =
      (b.push (.text ⟨b.offset, b.offset + 1⟩)).restart (b.offset + 1) := by
    unfold add
    rw [if_pos hbare, restart_push_eq read]
  rw [← hadd]
  cases hb' : behind.add token b.offset with
  | error e =>
    rw [run]
    split
    · next hfail => cases read.symm.trans hfail
    · next hend => cases read.symm.trans hend
    · next hread =>
      cases read.symm.trans hread
      split
      · next e' he' =>
        cases hb'.symm.trans he'
        rfl
      · next b' hok => cases hb'.symm.trans hok
  | ok b' => exact run_of_add read hb'

/-- A builder reads what its reader does. -/
theorem exists_next_of_next {reader : tokenizer.Reader}
    (h : tokenizer.next b.reader = .ok (some (token, reader))) :
    ∃ behind, b.next = .ok (some (token, behind)) := by
  unfold next
  split
  · next hfail => cases h.symm.trans hfail
  · next hend => cases h.symm.trans hend
  · next hread =>
    cases h.symm.trans hread
    exact ⟨_, rfl⟩

theorem next_of_error {failure : Failure} (h : tokenizer.next b.reader = .error failure) :
    b.next = .error failure := by
  unfold next
  split
  · next hfail =>
    cases h.symm.trans hfail
    rfl
  · next hend => cases h.symm.trans hend
  · next hread => cases h.symm.trans hread

/-- What is kept of a bare `<` that stands where the builder says: the one byte is text, and what
follows it is read next. -/
theorem LaidOut.exists_restart_angle (mark : byteOrderMark ∉ source) (h : b.LaidOut)
    (ahead : b.rest = '<' :: t) :
    ∃ b', (b.push (.text ⟨b.offset, b.offset + 1⟩)).restart (b.offset + 1) = .ok b' ∧
      b'.offset = b.offset + 1 ∧ b'.rest = t ∧ b'.problems = b.problems ∧
      b'.stack.length = b.stack.length ∧
      b'.innermost = (Node.text ⟨b.offset, b.offset + 1⟩).addTo b.innermost := by
  have holds := h.ahead
  rw [ahead, ← List.singleton_append] at holds
  obtain ⟨hangle, hrest⟩ := holds.split
  have hle := hangle.stop_le_size
  obtain ⟨b', hb'⟩ := exists_restart (b.push (.text ⟨b.offset, b.offset + 1⟩))
    hangle.isBoundary_stop
  have hoffset := (offset_of_restart hb').trans (Nat.min_eq_left hle)
  refine ⟨b', hb', hoffset, ?_⟩
  obtain ⟨reader, within, rfl, hboundary, -, hdrop⟩ := exists_of_restart mark hle hb'
  refine ⟨?_, problems_push _ b, length_stack_push _ b, innermost_push _ b⟩
  exact hdrop.trans ((Text.holds_dropBytes hboundary).slice_eq.symm.trans hrest.slice_eq)

/-! ### What becomes of a bare angle -/

/-- A `<` that begins no markup is no end tag, declaration, comment or instruction. -/
theorem ne_of_not_opensMarkup (h : Token.opensMarkup t = false) (c : Char)
    (hc : t.head? = some c) : c ≠ '/' ∧ c ≠ '!' ∧ c ≠ '?' := by
  rw [Token.opensMarkup, hc, Option.any_some] at h
  simp only [Bool.or_eq_false_iff, beq_eq_false_iff_ne] at h
  exact ⟨h.1.1.2, h.1.2, h.2⟩

/-- For every text and a tokenizer that looks for the end of every tag, whatever reading has gone
through: at a `<` that begins no markup, a `>` outside of quotes behind it makes it one byte of
text, and reading goes on at the offset behind it; with no such `>`, the failure of the tokenizer is
recorded there, and all that is left is kept as text. Without byte order marks the first always
succeeds: nothing is recorded, the text in the innermost open element gains the one byte of the `<`
and what follows it is read next. -/
theorem Reaches.bare_angle (tags : tokenizer.ReadsTags) (h : Reaches b) (ahead : b.rest = '<' :: t)
    (hbare : Token.opensMarkup t = false) :
    (∀ body, Token.beforeTagEnd? none t = some body →
      b.run = (b.push (.text ⟨b.offset, b.offset + 1⟩)).restart (b.offset + 1) >>= run) ∧
      (Token.beforeTagEnd? none t = none → ∃ message,
        b.run = .ok ((b.report (Span.empty b.offset) (.unreadable message)).push
          (.text ⟨b.offset, source.size⟩))) ∧
      (byteOrderMark ∉ source → ∀ body, Token.beforeTagEnd? none t = some body →
        ∃ b' : Builder tokenizer source,
        source.Holds ⟨b.offset, b.offset + 1⟩ ['<'] ∧ b.run = b'.run ∧
          b'.offset = b.offset + 1 ∧ b'.rest = t ∧
          b'.problems = b.problems ∧ b'.stack.length = b.stack.length ∧
          ∀ n, TextAt b'.innermost n ↔ TextAt b.innermost n ∨ n = b.offset) := by
  have other := ne_of_not_opensMarkup hbare
  have hrun (body : Text) (hbody : Token.beforeTagEnd? none t = some body) :
      b.run = (b.push (.text ⟨b.offset, b.offset + 1⟩)).restart (b.offset + 1) >>= run := by
    obtain ⟨token, reader, hread, htag⟩ := tags.closed ahead other hbody
    obtain ⟨behind, hnext⟩ := exists_next_of_next hread
    have hlexeme := ahead.symm.trans (rest_of_next hnext)
    exact run_of_bare hnext (Token.isBare_of_not_opensMarkup hbare htag hlexeme)
  refine ⟨hrun, fun hnone => ?_, fun mark body hbody => ?_⟩
  · obtain ⟨message, hfail⟩ := tags.unclosed ahead other hnone
    refine ⟨message, ?_⟩
    have hlt : b.offset < source.size := by
      have hwithin := b.within
      have hsize := congrArg Text.size ahead
      have hpos := Char.utf8Size_pos '<'
      rw [Text.size_cons] at hsize
      simp only [rest] at hsize
      simp only [offset]
      omega
    rw [run_of_error (next_of_error hfail), keepRest, if_pos hlt]
    rfl
  · have hlaid := h.laidOut mark
    have holds := hlaid.ahead
    rw [ahead, ← List.singleton_append] at holds
    obtain ⟨start, strays, stop, hlayout⟩ := hlaid.layout_innermost
    obtain ⟨b', hb', hoffset, hrest, hproblems, hlength, hinnermost⟩ :=
      hlaid.exists_restart_angle mark ahead
    refine ⟨b', holds.split.1, ?_, hoffset, hrest, hproblems, hlength, fun n => ?_⟩
    · rw [hrun body hbody, hb']
      rfl
    · rw [hinnermost]
      exact textAt_addTo b.offset (forward_of_layout hlayout) n

/-- A heart in a text ends with the `>` of a tag. -/
theorem Reaches.bare_angle_of_tag :
    let source : Text := "a<3<b>".toList
    let b : Builder .standard source :=
      ⟨0, ⟨"<3<b>".toList, 1⟩, [], [.text ⟨0, 1⟩], [], by decide⟩
    Reaches b ∧ ∃ b' : Builder .standard source, b.run = b'.run ∧ b'.rest = "3<b>".toList ∧
      b'.problems = [] ∧ ∀ n, TextAt b'.innermost n ↔ TextAt b.innermost n ∨ n = 1 := by
  intro source b
  have hb : Reaches b := @Reaches.step .standard source _ _ _ (.text 'a' []) .start rfl rfl
  obtain ⟨-, -, hbyte⟩ :=
    hb.bare_angle Tokenizer.readsTags_standard (t := "3<b>".toList) rfl rfl
  obtain ⟨b', -, hrun, -, hrest, hproblems, -, htext⟩ := hbyte (by decide) "3<b".toList rfl
  exact ⟨hb, b', hrun, hrest, hproblems, htext⟩

/-- In front of the end of a text with no `>` at all, a bare `<` is recorded as a tag that is not
closed. -/
theorem Reaches.bare_angle_is_reported :
    ∃ (b b' : Builder .standard "a < b".toList) (t : Text), Reaches b ∧ b.rest = '<' :: t ∧
      Token.opensMarkup t = false ∧ b.run = .ok b' ∧ b.problems = [] ∧
      b'.problems = [(⟨2, 2⟩, .unreadable Lexer.Problem.unclosedTag.message)] := by
  let b : Builder .standard "a < b".toList :=
    ⟨0, ⟨"< b".toList, 2⟩, [], [.text ⟨0, 2⟩], [], by decide⟩
  have hb : Reaches b := @Reaches.step .standard _ _ _ _ (.text 'a' [' ']) .start rfl rfl
  have hfail : b.next = .error ⟨Lexer.Problem.unclosedTag.message, 2⟩ := rfl
  exact ⟨b, _, " b".toList, hb, rfl, rfl, run_of_error hfail, rfl, rfl⟩

end Builder

end BoundTemplate.Markup
