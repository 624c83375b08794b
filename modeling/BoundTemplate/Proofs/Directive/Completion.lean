import BoundTemplate.Proofs.Directive.Readers

/-!
# Beginnings of import clauses

Reading a clause fails where what comes next makes no sense: what has been read so far is the
beginning of a clause. For every place at which reading may fail, this module gives the rest
of a clause that goes on there.
-/

namespace BoundTemplate

namespace Text

variable {front t t' : Text}

/-- A word does not start apart. -/
theorem IsWord.not_startsApart (h : front.IsWord) (t : Text) : ¬Text.StartsApart (front ++ t) := by
  obtain ⟨c, hc, hstart⟩ := h.starts
  intro hapart
  have hpart := hapart c (by rw [List.head?_append, hc, Option.some_or])
  rw [isWordPart_of_isWordStart hstart] at hpart
  cases hpart

/-- Only the first character counts. -/
theorem startsApart_append_congr (hne : front ≠ []) (h : Text.StartsApart (front ++ t)) :
    Text.StartsApart (front ++ t') := by
  cases front with
  | nil => exact absurd rfl hne
  | cons c front => exact h

end Text

namespace Directive

variable {head : Head} {rest x y : Text}

theorem IsNameBefore.ne_nil {name : Text} (h : IsNameBefore name rest) : name ≠ [] := by
  rcases h with rfl | ⟨h, -⟩
  · exact List.cons_ne_nil _ _
  · exact h.ne_nil

namespace Head

/-- A head in front of other words, as far as its name may stand there. -/
theorem Reads.congr {rest' : Text} (hr : head.Reads rest)
    (hname : Text.StartsApart (head.behindName rest) → Text.StartsApart (head.behindName rest'))
    (htrailing : ∀ gap, head.trailing = some gap → Text.StartsApart (gap ++ rest'))
    (hahead : head.leading = none → head.name = "type".toList →
      ¬NameAhead (head.behindName rest')) : head.Reads rest' := by
  refine reads_of_name hr.blank_leading hr.blank_gap hr.blank_trailing ?_ htrailing hr.single
    (fun gap hleading => ⟨?_, hr.name_ne_from hleading⟩) hahead
  · exact hr.name.imp_right fun ⟨hword, hapart⟩ => ⟨hword, hname hapart⟩
  · refine (hr.blank_leading gap hleading).startsApart_congr (fun h => ?_)
      (hr.apart_leading hleading)
    exact Text.startsApart_append_congr hr.name.ne_nil h

/-- A head in front of the word `from`, whatever follows that. -/
theorem Reads.congr_from (hr : head.Reads ("from".toList ++ x)) (hy : y.StartsApart) :
    head.Reads ("from".toList ++ y) := by
  have hapart {gap : Text} (hgap : gap.Blank) (h : Text.StartsApart (gap ++ ("from".toList ++ x))) :
      Text.StartsApart (gap ++ ("from".toList ++ y)) :=
    hgap.startsApart_congr (fun h => absurd h (isWord_from.not_startsApart x)) h
  refine hr.congr (fun h => ?_) (fun gap htrailing => ?_) fun _ hname => ?_
  · unfold behindName at h ⊢
    cases htrailing : head.trailing with
    | none =>
      rw [htrailing] at h
      exact hapart hr.blank_gap h
    | some gap =>
      rw [htrailing, modifier, List.append_assoc] at h
      rw [modifier, List.append_assoc]
      exact hr.blank_gap.startsApart_congr (fun h => absurd h (isWord_type.not_startsApart _)) h
  · exact hapart (hr.blank_trailing gap htrailing) (hr.apart_trailing gap htrailing)
  · cases htrailing : head.trailing with
    | none =>
      rw [behindName, htrailing, modifier, List.nil_append,
        nameAhead_iff hr.blank_gap (.inr ⟨isWord_from, hy⟩)]
      exact fun hne => hne rfl
    | some gap => exact absurd hname (hr.name_ne_type htrailing)

/-- A head with one more blank at its end. -/
def spaced (head : Head) : Head :=
  match head.trailing with
  | some gap => { head with trailing := some (gap ++ [' ']) }
  | none => { head with gap := head.gap ++ [' '] }

theorem text_spaced (head : Head) : head.spaced.text = head.text ++ [' '] := by
  unfold spaced
  cases h : head.trailing with
  | none => simp only [text, h, modifier, List.append_nil, List.append_assoc]
  | some gap => simp only [text, h, modifier, List.append_assoc]

/-- Behind a head, a blank and the word `from` go on the clause. -/
theorem Reads.spaced (hr : head.Reads rest) (hx : x.StartsApart) :
    head.spaced.Reads ("from".toList ++ x) := by
  have hblank : Text.Blank [' '] := by
    rintro c hc
    rw [List.mem_singleton.1 hc]
    decide
  have hspaced {gap : Text} (hgap : gap.Blank) (t : Text) :
      Text.Blank (gap ++ [' ']) ∧ Text.StartsApart ((gap ++ [' ']) ++ t) :=
    ⟨hgap.append hblank, (hgap.append hblank).startsApart (by simp) t⟩
  obtain ⟨leading, name, gap, trailing⟩ := head
  have hapart (gap' : Text) (hleading : leading = some gap') (t t' : Text)
      (h : Text.StartsApart (gap' ++ (name ++ t))) : Text.StartsApart (gap' ++ (name ++ t')) :=
    (hr.blank_leading gap' hleading).startsApart_congr
      (fun h => Text.startsApart_append_congr hr.name.ne_nil h) h
  cases trailing with
  | none =>
    refine reads_of_name hr.blank_leading (hspaced hr.blank_gap []).1 (fun _ h => nomatch h) ?_
      (fun _ h => nomatch h) (.inr rfl)
      (fun gap' hleading => ⟨hapart gap' hleading _ _ (hr.apart_leading hleading),
        hr.name_ne_from hleading⟩) fun _ _ => ?_
    · exact hr.name.imp_right fun ⟨hword, _⟩ => ⟨hword, (hspaced hr.blank_gap _).2⟩
    · change ¬NameAhead ((gap ++ [' ']) ++ ("from".toList ++ x))
      rw [nameAhead_iff (hspaced hr.blank_gap []).1 (.inr ⟨isWord_from, hx⟩)]
      exact fun hne => hne rfl
  | some gap' =>
    obtain rfl : leading = none := hr.leading_eq_none rfl
    have hgap' := hr.blank_trailing gap' rfl
    refine reads_of_name (fun _ h => nomatch h) hr.blank_gap ?_ ?_ ?_ (.inl rfl)
      (fun _ h => nomatch h) fun _ hname => absurd hname (hr.name_ne_type rfl)
    · rintro _ ⟨⟩
      exact (hspaced hgap' []).1
    · refine hr.name.imp_right fun ⟨hword, hname⟩ => ⟨hword, ?_⟩
      simp only [behindName, modifier, List.append_assoc] at hname ⊢
      exact hr.blank_gap.startsApart_congr (fun h => absurd h (isWord_type.not_startsApart _)) hname
    · rintro _ ⟨⟩
      exact (hspaced hgap' _).2

end Head

/-! ### Completions -/

/-- A text is the beginning of an import clause. -/
def Viable (front : Text) : Prop := ∃ (more : Text) (s : Spelling), s.Spells (front ++ more)

/-- What stands at the front of a beginning is one, too. -/
theorem Viable.of_append {front t : Text} (h : Viable (front ++ t)) : Viable front := by
  obtain ⟨more, s, hs⟩ := h
  exact ⟨t ++ more, s, List.append_assoc front t more ▸ hs⟩

theorem Spelling.Spells.viable {s : Spelling} {t : Text} (h : s.Spells t) : Viable t :=
  ⟨[], s, (List.append_nil t).symm ▸ h⟩

/-- What follows `from` does not go on with a word. -/
theorem startsApart_literal {inner : Text} {mark : Char} {quote : Quote} (hinner : inner.Blank)
    (hquote : Quote.ofChar? mark = some quote) (t : Text) :
    Text.StartsApart (inner ++ mark :: t) := by
  refine hinner.startsApart_cons ?_ t
  rcases eq_of_ofChar? hquote with rfl | rfl <;> decide

/-- A head that is followed by `from` is that of a clause with any literal. -/
theorem spells_of_head {inner : Text} {mark : Char} {quote : Quote} {content back : Text}
    (hr : head.Reads ("from".toList ++ x)) (hinner : inner.Blank)
    (hquote : Quote.ofChar? mark = some quote) (hcontent : LiteralBody mark content)
    (hback : back.Blank) :
    Spelling.Spells ⟨head, inner, mark, quote, content, back⟩
      (head.text ++ ("from".toList ++ (inner ++ (mark :: (content ++ mark :: back))))) := by
  have hapart := startsApart_literal hinner hquote (content ++ mark :: back)
  exact ⟨rfl, hr.congr_from hapart, hapart, hinner, hquote, hcontent, hback⟩

theorem reads_asterisk (t : Text) : (Head.mk none ['*'] [] none).Reads t :=
  Head.reads_of_name (fun _ h => nomatch h) (fun _ h => nomatch h) (fun _ h => nomatch h) (.inl rfl)
    (fun _ h => nomatch h) (.inl rfl) (fun _ h => nomatch h) fun _ h => nomatch h

/-- In a literal go on the rest of its body and its quote. -/
theorem viable_literal {inner : Text} {mark : Char} {quote : Quote} {body more : Text}
    (hr : head.Reads ("from".toList ++ x)) (hinner : inner.Blank)
    (hquote : Quote.ofChar? mark = some quote) (hbody : LiteralBody mark (body ++ more)) :
    Viable (head.text ++ ("from".toList ++ (inner ++ (mark :: body)))) := by
  refine Viable.of_append (t := more ++ [mark]) ?_
  have hclause := spells_of_head hr hinner hquote hbody Text.blank_nil
  simpa only [List.append_assoc, List.cons_append] using hclause.viable

/-- Behind the word `from` goes on a literal. -/
theorem viable_from {inner : Text} (hr : head.Reads ("from".toList ++ x)) (hinner : inner.Blank) :
    Viable (head.text ++ ("from".toList ++ inner)) := by
  have hquote : Quote.ofChar? '\'' = some .single := rfl
  have hbody : LiteralBody '\'' ([] ++ []) := .nil
  refine Viable.of_append (t := ['\'']) ?_
  simpa only [List.append_assoc] using viable_literal hr hinner hquote hbody

/-- Behind a head goes on the word `from`. -/
theorem viable_head (hr : head.Reads rest) : Viable head.text := by
  refine Viable.of_append (t := [' '] ++ "from".toList) ?_
  rw [← List.append_assoc, ← Head.text_spaced]
  have hspaced := hr.spaced Text.startsApart_nil
  simpa only [List.append_nil] using viable_from hspaced Text.blank_nil

/-- Every clause goes on behind nothing. -/
theorem viable_nil : Viable [] := by
  have h : Viable ([] ++ Head.text _) := viable_head (reads_asterisk [])
  exact h.of_append

/-! ### Failures -/

/-- A failure lies behind the beginning of a clause; if nothing follows it says so, unless a literal
does not end. -/
structure FailsBehind (offset : Nat) (front rest : Text) (failure : Failure) : Prop where
  offset_eq : failure.offset = offset + front.size
  viable : Viable front
  problem : failure.problem = .unterminatedModule ∨ (failure.problem = .endOfInput ↔ rest = [])

/-- A failure where nothing fits says so if nothing follows. -/
theorem failsBehind_before {offset place : Nat} {front : Text} {problem : Problem}
    (h : Viable front) (hproblem : problem ≠ .endOfInput) (hplace : place = offset + front.size)
    (rest : Text) :
    FailsBehind offset front rest (Failure.before problem ⟨place, rest⟩) := by
  refine ⟨hplace, h, .inr ?_⟩
  unfold Failure.before
  cases rest with
  | nil => exact iff_of_true rfl rfl
  | cons c rest => exact iff_of_false hproblem (List.cons_ne_nil c rest)

/-- A text is spelled as a clause, or reading fails behind the longest beginning of one. -/
theorem Clause.spells_or_fails (offset : Nat) (t : Text) :
    (∃ s : Spelling, s.Spells t) ∨ ∃ front rest failure, t = front ++ rest ∧
      read ⟨offset, t⟩ = .error failure ∧ FailsBehind offset front rest failure := by
  rw [read_eq]
  cases hhead : readHead? ⟨offset, t⟩ with
  | none => exact .inr ⟨[], t, _, rfl, rfl, failsBehind_before viable_nil (by decide) rfl t⟩
  | some found =>
    obtain ⟨name, typed, left⟩ := found
    obtain ⟨head, rest, rfl, hr, -, -, rfl, rfl, rfl⟩ := exists_head_of_readHead? hhead
    dsimp only
    cases hfrom : afterKeyword? "from" ⟨offset + head.text.size, rest⟩ with
    | none =>
      exact .inr ⟨head.text, rest, _, rfl, rfl,
        failsBehind_before (viable_head hr) (by decide) rfl rest⟩
    | some left =>
      obtain ⟨x, rfl, hx, rfl⟩ := afterKeyword?_eq_some_iff.1 hfrom
      obtain ⟨inner, rest, rfl, hinner, -, htrim⟩ := Excerpt.exists_trimStart
        (offset + head.text.size + Text.size "from".toList) x
      dsimp only
      rw [htrim]
      rcases readLiteral_cases (offset + head.text.size + Text.size "from".toList + inner.size) rest
        with ⟨mark, quote, body, back, rfl, hquote, hbody⟩ | hfail |
          ⟨mark, quote, body, rest, more, rfl, hquote, hbody, hfail⟩
      · -- A literal is read, and blanks behind it are trimmed.
        obtain ⟨blanks, junk, rfl, hblanks, -, htrim'⟩ := Excerpt.exists_trimStart
          (offset + head.text.size + Text.size "from".toList + inner.size +
            Text.size (mark :: (body ++ [mark]))) back
        have hspells := spells_of_head hr hinner hquote hbody hblanks
        rw [readLiteral_append hquote hbody]
        dsimp only
        rw [htrim']
        cases junk with
        | nil => exact .inl ⟨_, by rwa [List.append_nil]⟩
        | cons c junk =>
          refine .inr ⟨_, c :: junk, _, ?_, rfl, failsBehind_before hspells.viable (by decide) ?_ _⟩
          · simp only [List.append_assoc, List.cons_append]
          · simp only [Text.size_append, Text.size_cons, Text.size_nil]
            omega
      · refine .inr ⟨_, rest, _, ?_, by rw [hfail],
          failsBehind_before (viable_from hr hinner) (by decide) ?_ rest⟩
        · simp only [List.append_assoc]
        · simp only [Text.size_append, Nat.add_assoc]
      · refine .inr ⟨_, rest, _, ?_, by rw [hfail], ?_, viable_literal hr hinner hquote hbody,
          .inl rfl⟩
        · simp only [List.append_assoc, List.cons_append]
        · simp only [Text.size_append, Text.size_cons, Nat.add_assoc]

/-- The wordings of two problems differ from all others. -/
theorem Problem.message_eq_iff (problem : Problem) :
    (problem.message = "Unexpected end of input" ↔ problem = .endOfInput) ∧
      (problem.message = "Unterminated string literal" ↔ problem = .unterminatedModule) := by
  cases problem <;> decide

/-- Where reading an import clause fails, the failure lies in the text, between two characters, and
what stands in front of it is the beginning of a clause that can be read. Unless a literal does not
end, the failure says that the text ends if that is where it lies. -/
theorem Clause.fails_behind_viable_text {e : Excerpt} {failure : Failure}
    (h : Clause.read e = .error failure) :
    e.offset ≤ failure.offset ∧ failure.offset ≤ e.stop ∧
      e.text.isBoundary (failure.offset - e.offset) = true ∧
      (∃ more clause, Clause.read
        ⟨e.offset, Text.takeBytes (failure.offset - e.offset) e.text ++ more⟩ = .ok clause) ∧
      (failure.problem.message ≠ "Unterminated string literal" →
        (failure.problem.message = "Unexpected end of input" ↔ failure.offset = e.stop)) := by
  obtain ⟨offset, t⟩ := e
  rcases spells_or_fails offset t with ⟨s, hs⟩ | ⟨front, rest, failure', rfl, hfail, hbehind⟩
  · rw [read_of_spells hs] at h
    cases h
  · cases hfail.symm.trans h
    obtain ⟨hoffset, ⟨more, s, hs⟩, hproblem⟩ := hbehind
    have hstop : Excerpt.stop ⟨offset, front ++ rest⟩ = offset + front.size + rest.size := by
      simp only [Excerpt.stop, Text.size_append, Nat.add_assoc]
    have hplace : failure.offset - offset = front.size := by omega
    dsimp only
    rw [hplace, hstop, Text.takeBytes_size_append]
    refine ⟨by omega, by omega, Text.isBoundary_iff.2 ⟨front, rest, rfl, rfl⟩,
      ⟨more, _, read_of_spells hs offset⟩, fun hmessage => ?_⟩
    rw [Ne, (Problem.message_eq_iff _).2] at hmessage
    rw [(Problem.message_eq_iff _).1, hproblem.resolve_left hmessage, ← Text.size_eq_zero]
    omega

/-- In the first text the word `type` is the name as no other name follows, and in the second the
text ends behind a backslash. -/
theorem Clause.fails_behind_viable_text_of_type :
    let e : Excerpt := ⟨6, "type 'x'".toList⟩
    let e' : Excerpt := ⟨6, "* from 'a\\".toList⟩
    Clause.read e = .error ⟨.fromExpected, 11⟩ ∧
      Clause.read e' = .error ⟨.unterminatedModule, 16⟩ ∧
      (∃ more clause, Clause.read ⟨6, "type ".toList ++ more⟩ = .ok clause) ∧
      ∃ more clause, Clause.read ⟨6, "* from 'a\\".toList ++ more⟩ = .ok clause := by
  intro e e'
  have hread (e : Excerpt) (failure : Failure)
      (h : (match Clause.read e with | .error f => some f | .ok _ => none) = some failure) :
      Clause.read e = .error failure := by
    split at h
    · next f hf => exact hf.trans (congrArg Except.error (Option.some.inj h))
    · cases h
  have h := hread e ⟨.fromExpected, 11⟩ (by decide +kernel)
  have h' := hread e' ⟨.unterminatedModule, 16⟩ (by decide +kernel)
  have hfront : Text.takeBytes 5 e.text = "type ".toList := by decide
  have hfront' : Text.takeBytes 10 e'.text = "* from 'a\\".toList := by decide
  refine ⟨h, h', ?_, ?_⟩
  · rw [← hfront]
    exact (fails_behind_viable_text h).2.2.2.1
  · rw [← hfront']
    exact (fails_behind_viable_text h').2.2.2.1

end Directive

end BoundTemplate
