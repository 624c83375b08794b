import BoundTemplate.Proofs.Directive.Grammar

/-!
# Readers of directives

Each reader takes from the front of an excerpt exactly what its part of the grammar describes
and leaves the rest behind it.
-/

namespace BoundTemplate

namespace Excerpt

/-- Behind the blanks in front of an excerpt stands what is left when they are trimmed. -/
theorem exists_trimStart (offset : Nat) (t : Text) :
    ∃ gap rest, t = gap ++ rest ∧ gap.Blank ∧ rest.StartsSolid ∧
      trimStart ⟨offset, t⟩ = ⟨offset + gap.size, rest⟩ := by
  refine ⟨t.takeWhile isBlank, Text.trimStart t, (Text.takeWhile_append_trimStart t).symm,
    Text.blank_takeWhile t, Text.startsSolid_trimStart t, ?_⟩
  have h := trimStart_mk offset (Text.blank_takeWhile t) (Text.startsSolid_trimStart t)
  rwa [Text.takeWhile_append_trimStart] at h

/-- What is dropped in front of a rest leaves the rest. -/
theorem drop_length_append (offset : Nat) (front rest : Text) :
    drop front.length ⟨offset, front ++ rest⟩ = ⟨offset + front.size, rest⟩ := by
  simp only [drop, List.take_left, List.drop_left]

theorem take_length_append (offset : Nat) (front rest : Text) :
    take front.length ⟨offset, front ++ rest⟩ = ⟨offset, front⟩ := by
  simp only [take, List.take_left]

end Excerpt

namespace Directive

variable {offset : Nat} {t rest : Text} {e first left : Excerpt}

/-! ### Words -/

theorem word?_append {word : Text} (hword : word.IsWord) (hrest : rest.StartsApart) :
    word? ⟨offset, word ++ rest⟩ = some (⟨offset, word⟩, ⟨offset + word.size, rest⟩) := by
  obtain ⟨c, hc, hstart⟩ := hword.starts
  have hhead : (word ++ rest).head?.any isWordStart = true := by
    rw [List.head?_append, hc]
    exact hstart
  unfold word?
  dsimp only
  rw [if_pos hhead, Text.takeWhile_isWordPart hword.parts hrest, Excerpt.take_length_append,
    Excerpt.drop_length_append]

/-- A word is read from the front of a text exactly if the text starts with it and it ends there. -/
theorem word?_eq_some_iff :
    word? ⟨offset, t⟩ = some (first, left) ↔
      ∃ word rest, t = word ++ rest ∧ word.IsWord ∧ rest.StartsApart ∧
        first = ⟨offset, word⟩ ∧ left = ⟨offset + word.size, rest⟩ := by
  constructor
  · intro h
    have hsplit := (List.takeWhile_append_dropWhile (p := isWordPart) (l := t)).symm
    have hapart : Text.StartsApart (t.dropWhile isWordPart) := by
      intro c hc
      have hnot := List.head?_dropWhile_not isWordPart t
      rw [hc] at hnot
      simpa using hnot
    have hword : Text.IsWord (t.takeWhile isWordPart) := by
      unfold word? at h
      dsimp only at h
      split at h
      · next hhead =>
        cases t with
        | nil => cases hhead
        | cons c t =>
          have hpart := isWordPart_of_isWordStart hhead
          refine ⟨⟨c, ?_, hhead⟩, fun d hd => ?_⟩
          · rw [List.takeWhile_cons_of_pos hpart, List.head?_cons]
          · exact List.all_eq_true.1 List.all_takeWhile d hd
      · cases h
    refine ⟨_, _, hsplit, hword, hapart, ?_⟩
    rw [hsplit, word?_append hword hapart] at h
    cases h
    exact ⟨rfl, rfl⟩
  · rintro ⟨word, rest, rfl, hword, hrest, rfl, rfl⟩
    exact word?_append hword hrest

/-- A name is read from the front of a text exactly if the text starts with it and it ends there. -/
theorem importedName?_eq_some_iff :
    importedName? ⟨offset, t⟩ = some (first, left) ↔
      ∃ name rest, t = name ++ rest ∧ IsNameBefore name rest ∧
        first = ⟨offset, name⟩ ∧ left = ⟨offset + name.size, rest⟩ := by
  unfold importedName?
  dsimp only
  split
  · next hhead =>
    obtain ⟨t, rfl⟩ : ∃ t', t = '*' :: t' := List.head?_eq_some_iff.1 hhead
    have hname : IsNameBefore ['*'] t := .inl rfl
    have htake : Excerpt.take 1 ⟨offset, '*' :: t⟩ = ⟨offset, ['*']⟩ := rfl
    have hdrop : Excerpt.drop 1 ⟨offset, '*' :: t⟩ = ⟨offset + Text.size ['*'], t⟩ := rfl
    rw [htake, hdrop, Option.some_inj, Prod.mk.injEq]
    constructor
    · rintro ⟨rfl, rfl⟩
      exact ⟨['*'], t, rfl, hname, rfl, rfl⟩
    · rintro ⟨name, rest, heq, hname', rfl, rfl⟩
      obtain ⟨rfl, rfl⟩ := hname.append_inj hname' heq
      exact ⟨rfl, rfl⟩
  · next hhead =>
    rw [word?_eq_some_iff]
    constructor
    · rintro ⟨word, rest, rfl, hword, hrest, rfl, rfl⟩
      exact ⟨word, rest, rfl, .inr ⟨hword, hrest⟩, rfl, rfl⟩
    · rintro ⟨name, rest, rfl, rfl | ⟨hword, hrest⟩, rfl, rfl⟩
      · exact absurd rfl hhead
      · exact ⟨name, rest, rfl, hword, hrest, rfl, rfl⟩

theorem importedName?_append {name : Text} (h : IsNameBefore name rest) :
    importedName? ⟨offset, name ++ rest⟩ = some (⟨offset, name⟩, ⟨offset + name.size, rest⟩) :=
  importedName?_eq_some_iff.2 ⟨name, rest, rfl, h, rfl, rfl⟩

/-- A keyword is read from the front of a text exactly if the text starts with it and it ends
there. -/
theorem afterKeyword?_eq_some_iff {keyword : String} :
    afterKeyword? keyword ⟨offset, t⟩ = some left ↔
      ∃ rest, t = keyword.toList ++ rest ∧ rest.StartsApart ∧
        left = ⟨offset + Text.size keyword.toList, rest⟩ := by
  have hapart (t : Text) : (!t.head?.any isWordPart) = true ↔ t.StartsApart := by
    unfold Text.StartsApart
    cases t.head? <;> simp
  unfold afterKeyword?
  dsimp only
  constructor
  · intro h
    split at h
    · next hkeyword =>
      obtain ⟨hstarts, hbehind⟩ := Bool.and_eq_true_iff.1 hkeyword
      obtain ⟨rest, rfl⟩ := List.isPrefixOf_iff_prefix.1 hstarts
      rw [Excerpt.drop_length_append] at h hbehind
      cases h
      exact ⟨rest, rfl, (hapart rest).1 hbehind, rfl⟩
    · cases h
  · rintro ⟨rest, rfl, hrest, rfl⟩
    have hstarts : keyword.toList.isPrefixOf (keyword.toList ++ rest) = true :=
      List.isPrefixOf_iff_prefix.2 (List.prefix_append _ _)
    rw [Excerpt.drop_length_append,
      if_pos (Bool.and_eq_true_iff.2 ⟨hstarts, (hapart rest).2 hrest⟩)]

theorem afterKeyword?_append {keyword : String} (h : rest.StartsApart) :
    afterKeyword? keyword ⟨offset, keyword.toList ++ rest⟩ =
      some ⟨offset + Text.size keyword.toList, rest⟩ :=
  afterKeyword?_eq_some_iff.2 ⟨rest, rfl, h, rfl⟩

/-! ### Literals -/

theorem eq_of_ofChar? {mark : Char} {quote : Quote} (h : Quote.ofChar? mark = some quote) :
    mark = '"' ∨ mark = '\'' := by
  unfold Quote.ofChar? at h
  split at h
  · next hmark => exact .inl hmark
  · split at h
    · next hmark => exact .inr hmark
    · cases h

/-- A literal does not begin with a blank. -/
theorem startsSolid_literal {mark : Char} {quote : Quote} (h : Quote.ofChar? mark = some quote)
    (t : Text) : Text.StartsSolid (mark :: t) := by
  rintro c ⟨⟩
  rcases eq_of_ofChar? h with rfl | rfl <;> decide

/-- The body of a literal ends at the first quote behind it. -/
theorem literalContent_append {mark : Char} {quote : Quote}
    (hquote : Quote.ofChar? mark = some quote) {body : Text} (h : LiteralBody mark body)
    (rest : Text) :
    literalContent mark false (body ++ mark :: rest) = body := by
  have hmark : mark ≠ '\\' := by
    rcases eq_of_ofChar? hquote with rfl | rfl <;> decide
  induction h with
  | nil => simp [literalContent, hmark]
  | escaped c _ ih => simp [literalContent, ih]
  | plain ne_mark ne_backslash ne_return ne_feed _ ih =>
    simp [literalContent, ne_mark, ne_backslash, ne_return, ne_feed, ih]

/-- What is read of a literal is a body, unless the text ends behind a backslash that keeps no
character: then any character makes it one. The induction carries the backslash in front. -/
theorem literalBody_literalContent (mark : Char) (escaped : Bool) (t : Text) :
    let kept : Text := if escaped then ['\\'] else []
    LiteralBody mark (kept ++ literalContent mark escaped t) ∨
      literalContent mark escaped t = t ∧
        ∀ c, LiteralBody mark (kept ++ (literalContent mark escaped t ++ [c])) := by
  induction t generalizing escaped with
  | nil =>
    cases escaped with
    | false => exact .inl .nil
    | true => exact .inr ⟨rfl, fun c => .escaped c .nil⟩
  | cons c t ih =>
    cases escaped with
    | true =>
      rcases ih false with hbody | ⟨hall, hbody⟩
      · exact .inl (.escaped c hbody)
      · exact .inr ⟨congrArg (c :: ·) hall, fun d => .escaped c (hbody d)⟩
    | false =>
      unfold literalContent
      simp only [Bool.false_eq_true, if_false]
      by_cases hbackslash : c = '\\'
      · subst hbackslash
        rw [if_pos rfl]
        rcases ih true with hbody | ⟨hall, hbody⟩
        · exact .inl hbody
        · exact .inr ⟨congrArg ('\\' :: ·) hall, hbody⟩
      · rw [if_neg hbackslash]
        split
        · exact .inl .nil
        · next hend =>
          simp only [Bool.or_eq_true, decide_eq_true_eq, not_or] at hend
          obtain ⟨⟨hmark, hfeed⟩, hreturn⟩ := hend
          rcases ih false with hbody | ⟨hall, hbody⟩
          · exact .inl (.plain hmark hbackslash hreturn hfeed hbody)
          · exact .inr ⟨congrArg (c :: ·) hall,
              fun d => .plain hmark hbackslash hreturn hfeed (hbody d)⟩

/-- A literal is read from the front of a text where it is spelled. -/
theorem readLiteral_append {mark : Char} {quote : Quote} (hquote : Quote.ofChar? mark = some quote)
    {body : Text} (hbody : LiteralBody mark body) (rest : Text) :
    readLiteral ⟨offset, mark :: (body ++ mark :: rest)⟩ =
      .ok (⟨⟨offset + Text.size [mark], body⟩, quote⟩,
        ⟨offset + Text.size (mark :: (body ++ [mark])), rest⟩) := by
  have hinner : Excerpt.drop 1 ⟨offset, mark :: (body ++ mark :: rest)⟩ =
      ⟨offset + Text.size [mark], body ++ mark :: rest⟩ := rfl
  have hrest : Excerpt.drop 1 ⟨offset + Text.size [mark] + body.size, mark :: rest⟩ =
      ⟨offset + Text.size (mark :: (body ++ [mark])), rest⟩ := by
    simp only [Excerpt.drop, List.take_succ_cons, List.take_zero, List.drop_succ_cons,
      List.drop_zero, Text.size_cons, Text.size_append, Text.size_nil, Excerpt.mk.injEq, and_true]
    omega
  unfold readLiteral
  dsimp only
  rw [hquote]
  dsimp only
  rw [hinner, literalContent_append hquote hbody, Excerpt.drop_length_append,
    Excerpt.take_length_append, List.head?_cons, if_pos rfl, hrest]

/-- Reading a literal succeeds only where one is spelled. Else no quote stands at the start, or the
literal does not end and the failure lies behind what could be the beginning of its body. -/
theorem readLiteral_cases (offset : Nat) (t : Text) :
    (∃ mark quote body rest, t = mark :: (body ++ mark :: rest) ∧
      Quote.ofChar? mark = some quote ∧ LiteralBody mark body) ∨
    readLiteral ⟨offset, t⟩ = .error (Failure.before .moduleExpected ⟨offset, t⟩) ∨
    ∃ mark quote body rest more, t = mark :: (body ++ rest) ∧ Quote.ofChar? mark = some quote ∧
      LiteralBody mark (body ++ more) ∧
      readLiteral ⟨offset, t⟩ =
        .error ⟨.unterminatedModule, offset + Text.size (mark :: body)⟩ := by
  cases t with
  | nil => exact .inr (.inl rfl)
  | cons mark t =>
    unfold readLiteral
    dsimp only
    cases hquote : Quote.ofChar? mark with
    | none => exact .inr (.inl rfl)
    | some quote =>
      obtain ⟨rest, hrest⟩ := literalContent_prefix mark false t
      have hinner : Excerpt.drop 1 ⟨offset, mark :: t⟩ = ⟨offset + Text.size [mark], t⟩ := rfl
      have hdrop :
          Excerpt.drop (literalContent mark false t).length ⟨offset + Text.size [mark], t⟩ =
            ⟨offset + Text.size [mark] + Text.size (literalContent mark false t), rest⟩ := by
        have h := Excerpt.drop_length_append (offset + Text.size [mark])
          (literalContent mark false t) rest
        rwa [hrest] at h
      have hspec := literalBody_literalContent mark false t
      simp only [Bool.false_eq_true, if_false, List.nil_append] at hspec
      dsimp only
      rw [hinner, hdrop]
      dsimp only
      by_cases hhead : rest.head? = some mark
      · obtain ⟨rest, rfl⟩ := List.head?_eq_some_iff.1 hhead
        rcases hspec with hbody | ⟨hall, -⟩
        · exact .inl ⟨mark, quote, _, rest, by rw [hrest], hquote, hbody⟩
        · -- The body is not all of the text, as a quote stands behind it.
          rw [hall] at hrest
          cases List.append_right_eq_self.1 hrest
      · rw [if_neg hhead]
        have hfailure : offset + Text.size [mark] + Text.size (literalContent mark false t) =
            offset + Text.size (mark :: literalContent mark false t) := by
          simp only [Text.size_cons, Text.size_nil]
          omega
        rcases hspec with hbody | ⟨-, hbody⟩
        · exact .inr (.inr ⟨mark, quote, _, rest, [], by rw [hrest], hquote,
            by rwa [List.append_nil], by rw [hfailure]⟩)
        · exact .inr (.inr ⟨mark, quote, _, rest, [mark], by rw [hrest], hquote, hbody mark,
            by rw [hfailure]⟩)

/-! ### Heads -/

namespace Clause

/-- Reads what stands in front of the word `from`: the name, whether there is a modifier, and what
is left. -/
def readHead? (e : Excerpt) : Option (Excerpt × Bool × Excerpt) :=
  (importedName? e).map fun (first, rest) =>
    let (name, typed, rest) := skipLeadingType first rest.trimStart
    (name, skipTrailingType typed rest)

/-- A clause is read head first. -/
theorem read_eq (e : Excerpt) :
    read e = match readHead? e with
      | none => .error (Failure.before .importedNameExpected e)
      | some (name, typed, rest) =>
        match afterKeyword? "from" rest with
        | none => .error (Failure.before .fromExpected rest)
        | some rest =>
          match readLiteral rest.trimStart with
          | .error failure => .error failure
          | .ok (module, rest) =>
            if rest.trimStart.text.isEmpty then .ok ⟨⟨e.offset, rest.offset⟩, name, typed, module⟩
            else .error (Failure.before .inputBehindImport rest.trimStart) := by
  unfold read readHead?
  cases importedName? e <;> rfl

/-- The name that comes next is read behind blanks. -/
theorem nameAhead_of_importedName? {gap : Text} (hgap : gap.Blank) {name : Excerpt}
    (h : importedName? ⟨offset, rest⟩ = some (name, left)) :
    NameAhead (gap ++ rest) ↔ name.text ≠ "from".toList := by
  obtain ⟨name, rest, rfl, hname, rfl, rfl⟩ := importedName?_eq_some_iff.1 h
  exact nameAhead_iff hgap hname

theorem not_nameAhead_of_importedName? {gap : Text} (hgap : gap.Blank) (hrest : rest.StartsSolid)
    (h : importedName? ⟨offset, rest⟩ = none) : ¬NameAhead (gap ++ rest) := by
  rintro ⟨gap', name, rest', heq, hgap', hname, -⟩
  obtain ⟨-, rfl⟩ := hgap.append_inj hrest hgap' (hname.startsSolid _) heq
  rw [importedName?_append hname] at h
  cases h

/-- The first word or asterisk is the name or a modifier in front of it. -/
theorem exists_head_of_skipLeadingType
    (h : importedName? ⟨offset, t⟩ = some (first, left)) :
    ∃ (head : Head) (rest : Text), t = head.text ++ rest ∧ head.trailing = none ∧ head.Reads rest ∧
      rest.StartsSolid ∧ skipLeadingType first left.trimStart =
        (⟨offset + (modifier head.leading).size, head.name⟩, head.leading.isSome,
          ⟨offset + head.text.size, rest⟩) := by
  obtain ⟨name, behind, rfl, hname, rfl, rfl⟩ := importedName?_eq_some_iff.1 h
  obtain ⟨gap, rest, rfl, hgap, hrest, htrim⟩ :=
    Excerpt.exists_trimStart (offset + name.size) behind
  rw [htrim]
  -- Where the first word is the name, the head is that name with the blanks behind it.
  have hplain (hnot : name = "type".toList → ¬NameAhead (gap ++ rest)) :
      (Head.mk none name gap none).Reads rest :=
    { blank_leading := by rintro _ ⟨⟩
      blank_gap := hgap
      blank_trailing := by rintro _ ⟨⟩
      first := hname
      name := hname
      apart_trailing := by rintro _ ⟨⟩
      single := .inl rfl
      leading_iff := fun htype => iff_of_false Bool.false_ne_true (hnot htype) }
  have hplainText : name ++ (gap ++ rest) = (Head.mk none name gap none).text ++ rest := by
    simp only [Head.text, modifier, List.nil_append, List.append_nil, List.append_assoc]
  have hplainOffset : (⟨offset + name.size + gap.size, rest⟩ : Excerpt) =
      ⟨offset + (Head.mk none name gap none).text.size, rest⟩ := by
    simp only [Head.text, modifier, List.nil_append, List.append_nil, Text.size_append,
      Nat.add_assoc]
  unfold skipLeadingType
  dsimp only
  by_cases htype : name = "type".toList
  · subst htype
    rw [if_pos rfl]
    cases hnext : importedName? ⟨offset + Text.size "type".toList + gap.size, rest⟩ with
    | none =>
      refine ⟨⟨none, "type".toList, gap, none⟩, rest, hplainText, rfl, hplain fun _ => ?_, hrest,
        ?_⟩
      · exact not_nameAhead_of_importedName? hgap hrest hnext
      · rw [hplainOffset]
        rfl
    | some found =>
      obtain ⟨next, behind⟩ := found
      have hahead := nameAhead_of_importedName? hgap hnext
      dsimp only
      by_cases hfrom : next.text = "from".toList
      · refine ⟨⟨none, "type".toList, gap, none⟩, rest, hplainText, rfl, hplain fun _ => ?_, hrest,
          ?_⟩
        · rw [hahead]
          exact fun hne => hne hfrom
        · rw [if_pos hfrom, hplainOffset]
          rfl
      · obtain ⟨next, behind, rfl, hnextName, rfl, rfl⟩ := importedName?_eq_some_iff.1 hnext
        obtain ⟨gap', rest, rfl, hgap', hrest', htrim'⟩ := Excerpt.exists_trimStart
          (offset + Text.size "type".toList + gap.size + next.size) behind
        refine ⟨⟨some gap, next, gap', none⟩, rest, ?_, rfl, ?_, hrest', ?_⟩
        · simp only [Head.text, modifier, List.append_nil, List.append_assoc]
        · exact
            { blank_leading := by rintro _ ⟨⟩; exact hgap
              blank_gap := hgap'
              blank_trailing := by rintro _ ⟨⟩
              first := hname
              name := hnextName
              apart_trailing := by rintro _ ⟨⟩
              single := .inr rfl
              leading_iff := fun _ => iff_of_true rfl (hahead.2 hfrom) }
        · rw [if_neg hfrom, htrim']
          simp only [Head.text, modifier, List.append_nil, Text.size_append, Nat.add_assoc,
            Option.isSome_some]
  · rw [if_neg htype]
    exact ⟨⟨none, name, gap, none⟩, rest, hplainText, rfl, hplain fun h => absurd h htype, hrest,
      by rw [hplainOffset]; rfl⟩

/-- A head without a modifier takes the one that follows. -/
theorem reads_of_trailing {head : Head} {gap : Text}
    (hr : head.Reads ("type".toList ++ (gap ++ rest))) (hleading : head.leading = none)
    (htrailing : head.trailing = none) (hgap : gap.Blank)
    (hapart : Text.StartsApart (gap ++ rest)) :
    Head.Reads { head with trailing := some gap } rest := by
  obtain ⟨leading, name, gap', trailing⟩ := head
  dsimp only at hleading htrailing
  subst hleading htrailing
  have hbehind : (Head.mk none name gap' (some gap)).behindName rest =
      (Head.mk none name gap' none).behindName ("type".toList ++ (gap ++ rest)) := by
    simp only [Head.behindName, modifier, List.nil_append, List.append_assoc]
  have hname : IsNameBefore name ((Head.mk none name gap' (some gap)).behindName rest) := by
    rw [hbehind]
    exact hr.name
  exact
    { blank_leading := hr.blank_leading
      blank_gap := hr.blank_gap
      blank_trailing := by rintro _ ⟨⟩; exact hgap
      first := hname
      name := hname
      apart_trailing := by rintro _ ⟨⟩; exact hapart
      single := .inl rfl
      leading_iff := fun htype => by
        have hiff := hr.leading_iff htype
        rwa [Head.behindFirst, ← hbehind] at hiff }

/-- What is read in front of the word `from` is a head, with the modifier behind it if there is
one. -/
theorem exists_head_of_readHead? {name : Excerpt} {typed : Bool}
    (h : readHead? ⟨offset, t⟩ = some (name, typed, left)) :
    ∃ (head : Head) (rest : Text), t = head.text ++ rest ∧ head.Reads rest ∧ head.Ends rest ∧
      rest.StartsSolid ∧ name = ⟨offset + (modifier head.leading).size, head.name⟩ ∧
      typed = head.typed ∧ left = ⟨offset + head.text.size, rest⟩ := by
  obtain ⟨⟨first, behind⟩, hfirst, hfound⟩ := Option.map_eq_some_iff.1 h
  clear h
  obtain ⟨head, rest, rfl, htrailing, hr, hsolid, hskip⟩ := exists_head_of_skipLeadingType hfirst
  dsimp only at hfound
  rw [hskip] at hfound
  dsimp only [skipTrailingType] at hfound
  have htyped : head.typed = head.leading.isSome := by
    rw [Head.typed, htrailing]
    exact Bool.or_false _
  cases hleading : head.leading with
  | some gap =>
    rw [hleading] at hfound htyped
    cases hfound
    refine ⟨head, rest, rfl, hr, fun hnot => ?_, hsolid, by rw [hleading], htyped.symm, rfl⟩
    rw [htyped] at hnot
    cases hnot
  | none =>
    rw [hleading] at hfound htyped
    dsimp only [Option.isSome_none] at hfound
    rw [if_neg Bool.false_ne_true] at hfound
    cases hkeyword : afterKeyword? "type" ⟨offset + head.text.size, rest⟩ with
    | none =>
      rw [hkeyword] at hfound
      cases hfound
      refine ⟨head, rest, rfl, hr, fun _ x hx hapart => ?_, hsolid, by rw [hleading], htyped.symm,
        rfl⟩
      rw [hx, afterKeyword?_append hapart] at hkeyword
      cases hkeyword
    | some behind =>
      obtain ⟨x, rfl, hapart, rfl⟩ := afterKeyword?_eq_some_iff.1 hkeyword
      obtain ⟨gap, rest, rfl, hgap, hrest, htrim⟩ := Excerpt.exists_trimStart
        (offset + head.text.size + Text.size "type".toList) x
      rw [hkeyword] at hfound
      dsimp only at hfound
      rw [htrim] at hfound
      cases hfound
      have htext : Head.text { head with trailing := some gap } =
          head.text ++ ("type".toList ++ gap) := by
        simp only [Head.text, htrailing, modifier, List.append_nil, List.append_assoc]
      refine ⟨{ head with trailing := some gap }, rest, ?_,
        reads_of_trailing hr hleading htrailing hgap hapart, fun hnot => ?_, hrest, ?_, ?_, ?_⟩
      · rw [htext, List.append_assoc, List.append_assoc]
      · rw [Head.typed, Option.isSome_some, Bool.or_true] at hnot
        cases hnot
      · rw [hleading]
      · rw [Head.typed, Option.isSome_some, Bool.or_true]
      · simp only [htext, Text.size_append, Nat.add_assoc]

/-- A head is read where it is spelled, and no other. -/
theorem readHead?_append {head : Head} (hr : head.Reads rest) (hends : head.Ends rest)
    (hsolid : rest.StartsSolid) :
    readHead? ⟨offset, head.text ++ rest⟩ =
      some (⟨offset + (modifier head.leading).size, head.name⟩, head.typed,
        ⟨offset + head.text.size, rest⟩) := by
  obtain ⟨⟨name, typed, left⟩, hread⟩ :
      ∃ found, readHead? ⟨offset, head.text ++ rest⟩ = some found := by
    rw [Head.text_append_eq_first, readHead?, importedName?_append hr.first]
    exact ⟨_, rfl⟩
  obtain ⟨head', rest', heq, hr', hends', hsolid', rfl, rfl, rfl⟩ := exists_head_of_readHead? hread
  obtain ⟨rfl, rfl⟩ := hr.unique hr' hends hends' hsolid hsolid' heq
  exact hread

/-- A clause that is spelled in the right way is read, and says what it is spelled with. -/
theorem read_of_spells {s : Spelling} (h : s.Spells t) (offset : Nat) :
    read ⟨offset, t⟩ = .ok (s.clauseAt offset) := by
  have hsolid := startsSolid_literal h.quote (s.content ++ s.mark :: s.back)
  have hback : Text.trimStart s.back = [] := by
    have hnil := Text.trimStart_append h.blank_back (t := []) fun _ hc => nomatch hc
    rwa [List.append_nil] at hnil
  rw [← h.text_eq, read_eq,
    readHead?_append h.head (Head.ends_from _ _) (isWord_from.startsSolid _)]
  dsimp only
  rw [afterKeyword?_append h.apart_from]
  dsimp only [Spelling.behindFrom]
  rw [Excerpt.trimStart_mk _ h.blank_inner hsolid, readLiteral_append h.quote h.content]
  dsimp only
  rw [Excerpt.text_trimStart, hback, List.isEmpty_nil, if_pos rfl]
  simp only [Spelling.clauseAt, Text.size_append, Text.size_cons, Text.size_nil, Nat.add_assoc,
    Nat.add_zero]

end Clause

end Directive

end BoundTemplate
