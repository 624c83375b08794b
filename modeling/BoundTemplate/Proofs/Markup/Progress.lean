import BoundTemplate.Proofs.Markup.RawText

/-!
# Reading goes on

Every step of a builder goes on in the text, and none beyond the end of it. Where the next step
begins is told by the token that is read: behind its characters, behind the end tag of an element
with raw text, or behind the `<` of a bare tag, which is inside of that tag. So there are at most as
many steps as the text has bytes, and reading stops only where nothing is left or where no token can
be read.
-/

namespace BoundTemplate.Markup

variable {tokenizer : Tokenizer} {source : Text}

/-- A tag that is bare has characters behind its `<`. -/
theorem Token.one_lt_size {token : Token} (h : token.isBare = true) : 1 < token.lexeme.size := by
  have hangle (others : Text) (hne : others ≠ []) : 1 < Text.size ('<' :: others) :=
    Nat.lt_add_of_pos_right (Text.size_pos hne)
  cases token with
  | text | comment => cases h
  | startTag name others | emptyTag name others =>
    exact hangle _ (List.append_ne_nil_of_right_ne_nil _ (List.cons_ne_nil _ _))
  | endTag name others => exact hangle _ (List.cons_ne_nil _ _)

namespace Builder

variable {b b' behind last : Builder tokenizer source} {token : Token} {n : Nat}

/-! ### Steps -/

/-- A builder reads a token and adds it. -/
structure Adds (b : Builder tokenizer source) (token : Token)
    (behind b' : Builder tokenizer source) : Prop where
  read : b.next = .ok (some (token, behind))
  added : behind.add token b.offset = .ok b'

/-- A builder stops: at the end of the text, or where no token can be read. -/
inductive Stops (b : Builder tokenizer source) : Builder tokenizer source → Prop
  | atEnd (read : b.next = .ok none) (rest_eq : b.rest = []) (offset_eq : b.offset = source.size) :
      Stops b b
  | failing {failure : Failure} (read : b.next = .error failure) : Stops b (b.keepRest failure)

/-- The builders that reading a text comes to in a number of steps. -/
inductive ReachesIn : Nat → Builder tokenizer source → Prop
  | start : ReachesIn 0 (Builder.start tokenizer source)
  | step {n : Nat} {b b' behind : Builder tokenizer source} {token : Token} (h : ReachesIn n b)
      (adds : Adds b token behind b') : ReachesIn (n + 1) b'

/-- Where reading goes on behind a token that stands between two offsets: behind its characters,
behind its `<` if it is bare, or where an element with raw text stops. -/
def nextOffset (source : Text) (token : Token) (start stop : Nat) : Except LocationError Nat :=
  if token.isBare then .ok (start + 1)
  else
    match token with
    | .startTag name _ =>
      if isOneOf rawNames name then (·.2) <$> RawText.ends source name stop else .ok stop
    | _ => .ok stop

/-- No element without content has raw text. -/
theorem not_raw_of_void {name : Text} (h : isOneOf voidNames name = true) :
    isOneOf rawNames name = false := by
  have hapart : ∀ n ∈ voidNames, ∀ m ∈ rawNames, Text.lower n ≠ Text.lower m := by decide
  obtain ⟨n, hn, hname⟩ := List.any_eq_true.1 h
  refine Bool.eq_false_iff.2 fun hraw => ?_
  obtain ⟨m, hm, hname'⟩ := List.any_eq_true.1 hraw
  exact hapart n hn m hm ((beq_iff_eq.1 hname).trans (beq_iff_eq.1 hname').symm)

/-- An element that begins is gone through if it has raw text. -/
theorem offset_of_openElement {tag : StartTag} {name : Text} (hplace : b.offset = tag.range.stop)
    (hstop : source.isBoundary tag.range.stop = true) (hname : source.Holds tag.name name)
    (h : b.openElement tag = .ok b') :
    (if isOneOf rawNames name then (·.2) <$> RawText.ends source name tag.range.stop
      else .ok tag.range.stop) = Except.ok b'.offset := by
  unfold openElement at h
  rw [hname.checkedSlice_eq_ok] at h
  dsimp only [bind, Except.bind] at h
  split at h
  · next hvoid =>
    cases h
    rw [not_raw_of_void hvoid, offset_push, hplace]
    rfl
  · split at h
    · next hraw =>
      obtain ⟨found, content, hends, -, -, hboundary, -⟩ :=
        RawText.exists_ends (RawText.not_mem_of_raw hraw) hstop
      rw [RawText.pushRaw_eq hends b rfl] at h
      rw [if_pos hraw, hends, offset_of_restart h,
        Nat.min_eq_left (Text.le_size_of_isBoundary hboundary)]
      rfl
    · next hraw =>
      cases h
      rw [if_neg hraw]
      exact congrArg Except.ok hplace.symm

namespace Adds

/-- Where the next step begins is told by the token. -/
theorem nextOffset_eq (h : Adds b token behind b') (laid : b.LaidOut) :
    nextOffset source token b.offset behind.offset = .ok b'.offset := by
  obtain ⟨read, added⟩ := h
  have holds := (laid.holds_next read).1
  unfold nextOffset
  unfold Builder.add at added
  dsimp only at added
  split at added
  · next hbare =>
    have hle := (Token.holds_angle hbare holds).stop_le_size
    rw [if_pos hbare, offset_of_restart added, Nat.min_eq_left hle]
  · next hbare =>
    rw [if_neg hbare]
    cases token with
    | text | comment =>
      cases added
      rw [offset_push]
    | emptyTag name others =>
      obtain ⟨tag, -, added⟩ := exists_of_bind_eq_ok added
      cases added
      rw [offset_push]
    | startTag name others =>
      obtain ⟨⟨_, nameSpan, attributes⟩, htag, added⟩ := exists_of_bind_eq_ok added
      have hname := holds_name_of_readTag (.inl rfl) holds htag
      obtain rfl := range_of_readTag htag
      exact offset_of_openElement rfl holds.isBoundary_stop hname added
    | endTag name others =>
      obtain ⟨name, -, added⟩ := exists_of_bind_eq_ok added
      cases added
      rw [offset_closeNamed]

theorem offset_lt (h : Adds b token behind b') : b.offset < b'.offset :=
  offset_lt_of_add h.read h.added

/-- Behind a bare `<` reading goes back in front of the end of the tag that was read. -/
theorem offset_of_bare (h : Adds b token behind b') (laid : b.LaidOut)
    (hbare : token.isBare = true) : b'.offset = b.offset + 1 ∧ b'.offset < behind.offset := by
  have hnext := h.nextOffset_eq laid
  unfold nextOffset at hnext
  rw [if_pos hbare] at hnext
  have hoffset := (Except.ok.inj hnext).symm
  refine ⟨hoffset, ?_⟩
  rw [hoffset, offset_of_next h.read]
  exact Nat.add_lt_add_left (Token.one_lt_size hbare) b.offset

end Adds

/-- Where reading stops, that is all it does. -/
theorem Stops.run_eq (h : Stops b last) : b.run = .ok last := by
  cases h with
  | atEnd read => exact run_of_end read
  | failing read => exact run_of_error read

/-- Where reading stops nothing is added. -/
theorem Stops.not_adds (h : Stops b last) : ¬Adds b token behind b' := by
  rintro ⟨read, -⟩
  cases h with
  | atEnd read' => cases read.symm.trans read'
  | failing read' => cases read.symm.trans read'

/-- Reading stops or goes on. -/
theorem LaidOut.stops_or_adds (h : b.LaidOut) :
    (∃ last, Stops b last) ∨ ∃ token behind b', Adds b token behind b' := by
  cases hnext : b.next with
  | error failure => exact .inl ⟨_, .failing hnext⟩
  | ok token? =>
    rcases token? with _ | ⟨token, behind⟩
    · have hrest := rest_of_end hnext
      have hstop := h.ahead.stop_eq
      rw [hrest] at hstop
      exact .inl ⟨b, .atEnd hnext hrest hstop.symm⟩
    · obtain ⟨b', added⟩ := exists_add (h.holds_next hnext).1
      exact .inr ⟨token, behind, b', hnext, added⟩

/-! ### Runs -/

namespace ReachesIn

theorem reaches (h : ReachesIn n b) : Reaches b := by
  induction h with
  | start => exact .start
  | step _ adds ih => exact .step ih adds.read adds.added

/-- Every step takes at least one byte. -/
theorem le_offset (h : ReachesIn n b) : n ≤ b.offset := by
  induction h with
  | start => exact Nat.zero_le _
  | step _ adds ih => exact Nat.lt_of_le_of_lt ih adds.offset_lt

/-- Reading stops after some steps. -/
theorem exists_stops (h : ReachesIn n b) (mark : byteOrderMark ∉ source) :
    ∃ (m : Nat) (b' last : Builder tokenizer source), ReachesIn m b' ∧ Stops b' last ∧
      b.run = .ok last := by
  -- What is left of the text gets less with every step.
  induction hleft : source.size - b.offset using Nat.strongRecOn generalizing n b with
  | ind left ih =>
    rcases (h.reaches.laidOut mark).stops_or_adds with ⟨last, hstops⟩ | ⟨token, behind, b', hadds⟩
    · exact ⟨n, b, last, h, hstops, hstops.run_eq⟩
    · have hlt := hadds.offset_lt
      have hle := b'.offset_le_size
      obtain ⟨m, stopped, last, hreached, hstops, hrun⟩ :=
        ih (source.size - b'.offset) (by omega) (h.step hadds) rfl
      exact ⟨m, stopped, last, hreached, hstops, (run_of_add hadds.read hadds.added).trans hrun⟩

end ReachesIn

/-- Without byte order marks, and whatever tokens are read, reading stops after at most as many
steps as the text has bytes. At each step that it comes to it either stops, with nothing left or
where no token can be read, or adds a token; then it goes on at an offset that the token tells,
which is a later one and not beyond the end of the text. Behind a bare `<` that is in front of the
end of the tag that was read. -/
theorem goes_on_to_the_end (tokenizer : Tokenizer) (mark : byteOrderMark ∉ source) :
    (∃ (n : Nat) (b last : Builder tokenizer source), ReachesIn n b ∧ n ≤ source.size ∧
      Stops b last ∧ (Builder.start tokenizer source).run = .ok last) ∧
    ∀ (n : Nat) (b : Builder tokenizer source), ReachesIn n b →
      n ≤ b.offset ∧ b.offset ≤ source.size ∧
      ((∃ last, Stops b last) ∨ ∃ token behind b', Adds b token behind b') ∧
      (∀ last, Stops b last →
        b.run = .ok last ∧ ∀ token behind b', ¬Adds b token behind b') ∧
      ∀ token behind b', Adds b token behind b' →
        b.run = b'.run ∧ b.offset < b'.offset ∧ b'.offset ≤ source.size ∧
        nextOffset source token b.offset behind.offset = .ok b'.offset ∧
        (token.isBare = true → b'.offset = b.offset + 1 ∧ b'.offset < behind.offset) := by
  constructor
  · have hstart : ReachesIn 0 (Builder.start tokenizer source) := .start
    obtain ⟨n, b, last, hreached, hstops, hrun⟩ := hstart.exists_stops mark
    exact ⟨n, b, last, hreached, Nat.le_trans hreached.le_offset b.offset_le_size, hstops, hrun⟩
  · intro n b h
    have laid := h.reaches.laidOut mark
    exact ⟨h.le_offset, b.offset_le_size, laid.stops_or_adds,
      fun last hstops => ⟨hstops.run_eq, fun _ _ _ => hstops.not_adds⟩,
      fun token behind b' hadds => ⟨run_of_add hadds.read hadds.added, hadds.offset_lt,
        b'.offset_le_size, hadds.nextOffset_eq laid, hadds.offset_of_bare laid⟩⟩

/-- A heart in front of a title is read with the tag behind it, and then goes on inside of that tag;
the title goes on behind its end tag. -/
theorem goes_on_to_the_end_of_title :
    let source : Text := "<3<title>x</TITLE>".toList
    let heart := Builder.start .standard source
    let title : Builder .standard source :=
      ⟨1, ⟨"<title>x</TITLE>".toList, 1⟩, [], [.text ⟨0, 2⟩], [], by decide⟩
    byteOrderMark ∉ source ∧
      (∃ (n : Nat) (b last : Builder .standard source), ReachesIn n b ∧ n ≤ 18 ∧ Stops b last ∧
        heart.run = .ok last) ∧
      (∃ token behind three, Adds heart token behind three ∧ token.isBare = true ∧
        heart.offset = 0 ∧ three.offset = 1 ∧ three.offset < behind.offset) ∧
      ReachesIn 2 title ∧ title.offset = 2 ∧
      ∃ behind b', Adds title (.startTag "title".toList []) behind b' ∧ b'.offset = 18 := by
  intro source heart title
  have mark : byteOrderMark ∉ source := by decide
  obtain ⟨hstops, hsteps⟩ := goes_on_to_the_end .standard mark
  let tag : Token := .startTag "3<title".toList []
  let behind : Builder .standard source := ⟨0, ⟨"x</TITLE>".toList, 9⟩, [], [], [], by decide⟩
  let three : Builder .standard source :=
    ⟨1, ⟨"3<title>x</TITLE>".toList, 0⟩, [], [.text ⟨0, 1⟩], [], by decide⟩
  have hheart : Adds heart tag behind three := ⟨rfl, rfl⟩
  have htext : Adds three (.text '3' []) { title with roots := three.roots } title := ⟨rfl, rfl⟩
  have htitle : ReachesIn 2 title := (ReachesIn.start.step hheart).step htext
  have hread : title.next = .ok (some (.startTag "title".toList [],
    ⟨1, ⟨"x</TITLE>".toList, 8⟩, [], [.text ⟨0, 2⟩], [], by decide⟩)) := rfl
  obtain ⟨b', added⟩ := exists_add ((htitle.reaches.laidOut mark).holds_next hread).1
  have hraw : Adds title _ _ b' := ⟨hread, added⟩
  obtain ⟨-, -, -, -, hback⟩ := hsteps 0 heart .start
  obtain ⟨-, -, -, -, hbare⟩ := hback tag behind three hheart
  obtain ⟨hone, hlt⟩ := hbare rfl
  obtain ⟨-, -, -, -, htitle'⟩ := hsteps 2 title htitle
  obtain ⟨-, -, -, hnext, -⟩ := htitle' _ _ b' hraw
  have hstop : (nextOffset source (.startTag "title".toList []) 2 9).toOption = some 18 := by
    decide +kernel
  rw [show nextOffset source _ 2 9 = .ok b'.offset from hnext] at hstop
  exact ⟨mark, hstops, ⟨tag, behind, three, hheart, rfl, rfl, hone, hlt⟩, htitle, rfl, _, b', hraw,
    Option.some.inj hstop⟩

end Builder

end BoundTemplate.Markup
