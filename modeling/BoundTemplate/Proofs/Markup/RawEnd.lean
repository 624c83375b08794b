import BoundTemplate.Markup.RawText
import BoundTemplate.Proofs.Text.Searching

/-!
# The first end tag

The search for the end tag of raw text goes on behind every place at which an end tag of a longer
name starts. As no name has a `<`, no end tag starts inside of what is passed over, so the search
finds the first end tag of the name, and what it finds in the copy with small letters stands at the
same offsets in the text.
-/

namespace BoundTemplate.Markup.RawText

variable {name haystack : Text} {offset : Nat}

/-! ### The search in the copy -/

/-- A text in small letters starts with an end tag of a name. -/
def Starts (name t : Text) : Prop :=
  ∃ behind : Text, t = needle name ++ behind ∧ behind.head?.all endsName = true

theorem needle_ne_nil (name : Text) : needle name ≠ [] := List.cons_ne_nil _ _

/-- A name that has no `<` has none in small letters. -/
theorem not_mem_lower (h : '<' ∉ name) : '<' ∉ name.lower := by
  intro hmem
  obtain ⟨c, hc, hlower⟩ := List.mem_map.1 hmem
  exact h (Text.eq_of_toLower_eq hlower rfl ▸ hc)

/-- Where an end tag starts, no other one starts before the name is over. -/
theorem size_needle_le {behind between tag : Text} (hname : '<' ∉ name)
    (h : needle name ++ behind = between ++ tag) (hne : between ≠ []) (htag : Starts name tag) :
    (needle name).size ≤ between.size := by
  rcases List.append_eq_append_iff.1 h with ⟨more, rfl, -⟩ | ⟨more, hneedle, htag'⟩
  · rw [Text.size_append]
    exact Nat.le_add_right _ _
  · cases more with
    | nil =>
      rw [List.append_nil] at hneedle
      exact Nat.le_of_eq (congrArg Text.size hneedle)
    | cons c more =>
      -- The other end tag starts with a character of the first one, and not with its first.
      obtain ⟨rest, rfl, -⟩ := htag
      obtain ⟨rfl, -⟩ := List.cons.inj htag'
      obtain ⟨d, between, rfl⟩ := List.exists_cons_of_ne_nil hne
      obtain ⟨-, hothers⟩ := List.cons.inj hneedle
      have hmem : '<' ∈ '/' :: name.lower := hothers ▸ by simp
      exact absurd ((List.mem_cons.1 hmem).resolve_left (by decide)) (not_mem_lower hname)

/-- What is found stands at the first place at which an end tag may start, and the search looks at
what stands behind it. -/
theorem exists_of_find? {ahead : Text} {found : Nat} (h : haystack.isBoundary offset = true)
    (hdrop : haystack.checkedDrop offset = .ok ahead)
    (hfound : Text.find? (needle name) ahead = some found) :
    ∃ front behind, haystack = front ++ (needle name ++ behind) ∧ front.size = offset + found ∧
      haystack.checkedDrop (offset + found + (needle name).size) = .ok behind ∧
      ∀ before tag, haystack = before ++ tag → offset ≤ before.size → Starts name tag →
        front.size ≤ before.size := by
  obtain ⟨front, rest, rfl, rfl⟩ := Text.isBoundary_iff.1 h
  rw [Text.checkedDrop_append] at hdrop
  cases hdrop
  obtain ⟨⟨between, behind, rfl, rfl⟩, hfirst⟩ := Text.find?_eq_some hfound
  refine ⟨front ++ between, behind, (List.append_assoc ..).symm, Text.size_append .., ?_, ?_⟩
  · have hdrop := Text.checkedDrop_append (front ++ (between ++ needle name)) behind
    simpa only [List.append_assoc, Text.size_append, Nat.add_assoc] using hdrop
  · rintro before tag hbefore hle ⟨behind', rfl, -⟩
    obtain ⟨between', rfl, hrest⟩ := Text.exists_between hbefore hle
    have := hfirst between' behind' hrest
    rw [Text.size_append, Text.size_append]
    omega

/-- What starts no end tag is passed over with its name, and no end tag starts inside of it. -/
theorem stop_le_of_starts {front behind before tag : Text} (hname : '<' ∉ name)
    (hpassed : haystack = front ++ (needle name ++ behind))
    (hends : ¬behind.head?.all endsName = true) (h : haystack = before ++ tag)
    (hle : front.size ≤ before.size) (htag : Starts name tag) :
    front.size + (needle name).size ≤ before.size := by
  obtain ⟨between, rfl, hrest⟩ := Text.exists_between (hpassed.symm.trans h) hle
  have hne : between ≠ [] := by
    rintro rfl
    obtain ⟨rest, rfl, hrest'⟩ := htag
    obtain rfl := List.append_cancel_left hrest
    exact hends hrest'
  rw [Text.size_append]
  exact Nat.add_le_add_left (size_needle_le hname hrest hne htag) _

/-- The search finds the first end tag from a place between two characters on, or none where there
is none. -/
theorem findEnd?_spec (hname : '<' ∉ name) (h : haystack.isBoundary offset = true) :
    (∃ front behind, haystack = front ++ (needle name ++ behind) ∧ offset ≤ front.size ∧
      behind.head?.all endsName = true ∧
      (∀ before tag, haystack = before ++ tag → offset ≤ before.size → Starts name tag →
        front.size ≤ before.size) ∧
      findEnd? name haystack offset = .ok (some (front.size,
        (Text.find? ['>'] behind).map (front.size + (needle name).size + · + 1)))) ∨
    (∀ before tag, haystack = before ++ tag → offset ≤ before.size → ¬Starts name tag) ∧
      findEnd? name haystack offset = .ok none := by
  fun_induction findEnd? name haystack offset with
  | case1 offset e hdrop =>
    rw [Text.checkedDrop_eq_ok h] at hdrop
    cases hdrop
  | case2 offset ahead hdrop hfound =>
    obtain ⟨front, rest, rfl, rfl⟩ := Text.isBoundary_iff.1 h
    rw [Text.checkedDrop_append] at hdrop
    cases hdrop
    refine .inr ⟨fun before tag hbefore hle => ?_, rfl⟩
    rintro ⟨behind, rfl, -⟩
    obtain ⟨between, -, hrest⟩ := Text.exists_between hbefore hle
    exact Text.find?_eq_none (needle_ne_nil name) hfound between behind hrest
  | case3 offset ahead hdrop found hfound start nameStop e hbehind =>
    obtain ⟨front, behind, -, -, hdrop', -⟩ := exists_of_find? h hdrop hfound
    exact absurd (hdrop'.symm.trans hbehind) (by simp)
  | case4 offset ahead hdrop found hfound start nameStop behind hbehind hends =>
    obtain ⟨front, behind', heq, hsize, hdrop', hfirst⟩ := exists_of_find? h hdrop hfound
    obtain rfl := Except.ok.inj (hdrop'.symm.trans hbehind)
    refine .inl ⟨front, behind', heq, by omega, hends, hfirst, ?_⟩
    rw [hsize]
  | case5 offset ahead hdrop found hfound start nameStop behind hbehind hends hlt ih =>
    obtain ⟨front, behind', heq, hsize, hdrop', hfirst⟩ := exists_of_find? h hdrop hfound
    obtain rfl := Except.ok.inj (hdrop'.symm.trans hbehind)
    have hpass (before tag : Text) (hbefore : haystack = before ++ tag) (hle : offset ≤ before.size)
        (htag : Starts name tag) : nameStop ≤ before.size := by
      have hfront := hfirst before tag hbefore hle htag
      have := stop_le_of_starts hname heq hends hbefore hfront htag
      rwa [hsize] at this
    have hboundary : haystack.isBoundary nameStop = true := (Text.eq_of_checkedDrop hdrop').1
    rcases ih hboundary with ⟨front', rest, heq', hle', hends', hfirst', hfind⟩ | ⟨hnone, hfind⟩
    · refine .inl ⟨front', rest, heq', by omega, hends', ?_, hfind⟩
      intro before tag hbefore hle htag
      exact hfirst' before tag hbefore (hpass before tag hbefore hle htag) htag
    · refine .inr ⟨fun before tag hbefore hle htag => ?_, hfind⟩
      exact hnone before tag hbefore (hpass before tag hbefore hle htag) htag

/-! ### End tags in the text -/

/-- A text starts with an end tag of a name: two signs, the name with its letters in either case,
and behind them what ends a name, or nothing. -/
def StartsWithEnd (name t : Text) : Prop :=
  ∃ written rest : Text, t = '<' :: '/' :: (written ++ rest) ∧ written.sameLetters name = true ∧
    rest.head?.all endsName = true

/-- What ends a name is no letter. -/
theorem endsName_toLower (c : Char) : endsName c.toLower = endsName c := by
  have hsame (d : Char) (hd : d.isLower = false) (hd' : d.toLower = d) :
      (c.toLower == d) = (c == d) := by
    rw [Bool.eq_iff_iff, beq_iff_eq, beq_iff_eq]
    refine ⟨fun h => Text.eq_of_toLower_eq h hd, ?_⟩
    rintro rfl
    exact hd'
  unfold endsName
  rw [hsame '>' rfl rfl, hsame '/' rfl rfl, hsame ' ' rfl rfl, hsame '\t' rfl rfl,
    hsame '\n' rfl rfl, hsame '\x0c' rfl rfl, hsame '\r' rfl rfl]

theorem all_endsName_lower (t : Text) :
    t.lower.head?.all endsName = t.head?.all endsName := by
  cases t with
  | nil => rfl
  | cons c t => exact endsName_toLower c

/-- The copy starts with an end tag where the text does. -/
theorem starts_lower_iff {t : Text} : Starts name t.lower ↔ StartsWithEnd name t := by
  constructor
  · rintro ⟨behind, h, hends⟩
    obtain ⟨front, rest, rfl, hfront, rfl⟩ := Text.exists_of_lower_eq_append h
    obtain ⟨angle, front, rfl, hangle, hfront⟩ := List.map_eq_cons_iff.1 hfront
    obtain ⟨slash, written, rfl, hslash, hwritten⟩ := List.map_eq_cons_iff.1 hfront
    obtain rfl := Text.eq_of_toLower_eq hangle rfl
    obtain rfl := Text.eq_of_toLower_eq hslash rfl
    rw [all_endsName_lower] at hends
    exact ⟨written, rest, rfl, beq_iff_eq.2 hwritten, hends⟩
  · rintro ⟨written, rest, rfl, hsame, hends⟩
    refine ⟨rest.lower, ?_, (all_endsName_lower rest).trans hends⟩
    have hlower : written.lower = name.lower := beq_iff_eq.1 hsame
    rw [needle, ← hlower]
    simp [Text.lower]

/-- What stands behind the name of an end tag goes through the first `>` of a text, or through its
end. -/
def Through (more back : Text) : Prop :=
  (∃ inner, '>' ∉ inner ∧ more = inner ++ ['>']) ∨ '>' ∉ more ∧ back = []

/-- The first end tag of a name in what stands behind a place in a text. -/
structure FirstEnd (name : Text) (content written more back : Text) : Prop where
  same : written.sameLetters name = true
  ends : (more ++ back).head?.all endsName = true
  through : Through more back
  first : ∀ before tag : Text,
    content ++ ('<' :: '/' :: (written ++ (more ++ back))) = before ++ tag →
      StartsWithEnd name tag → content.size ≤ before.size

/-- What an end tag goes through behind its name is found in the copy. -/
theorem exists_through (t : Text) : ∃ more back, t = more ++ back ∧ Through more back ∧
    ((Text.find? ['>'] t.lower).map (· + 1)).getD t.size = more.size := by
  rcases Text.find?_singleton '>' t.lower with ⟨front, back, h, hfront, hfound⟩ | ⟨hnone, hfound⟩
  · obtain ⟨inner, rest, rfl, rfl, hrest⟩ := Text.exists_of_lower_eq_append h
    obtain ⟨angle, rest, rfl, hangle, -⟩ := List.map_eq_cons_iff.1 hrest
    obtain rfl := Text.eq_of_toLower_eq hangle rfl
    have hinner : '>' ∉ inner := fun hmem => hfront (List.mem_map.2 ⟨_, hmem, rfl⟩)
    refine ⟨inner ++ ['>'], rest, by rw [List.append_assoc]; rfl, .inl ⟨inner, hinner, rfl⟩, ?_⟩
    rw [hfound, Option.map_some, Option.getD_some, Text.size_append, Text.size_lower]
    rfl
  · have hmore : '>' ∉ t := fun hmem => hnone (List.mem_map.2 ⟨_, hmem, rfl⟩)
    refine ⟨t, [], (List.append_nil t).symm, .inr ⟨hmore, rfl⟩, ?_⟩
    rw [hfound]
    rfl

/-- What is found in the copy is counted from where the content starts. -/
theorem ends_eq {front rest : Text} {found? : Option (Nat × Option Nat)}
    (h : findEnd? name rest.lower 0 = .ok found?) :
    ends (front ++ rest) name front.size =
      .ok (stops front.size (Text.size (front ++ rest)) found?) := by
  rw [ends, Text.checkedDrop_append]
  simp only [bind, Except.bind, h]
  rfl

/-- Raw text is found to end at the first end tag of its name, or with the text. -/
theorem ends_spec (front rest : Text) (hname : '<' ∉ name) :
    (∃ content written more back : Text,
      rest = content ++ ('<' :: '/' :: (written ++ (more ++ back))) ∧
      FirstEnd name content written more back ∧
      ends (front ++ rest) name front.size = .ok (front.size + content.size,
        front.size + content.size + Text.size ('<' :: '/' :: (written ++ more)))) ∨
    (∀ before tag : Text, rest = before ++ tag → ¬StartsWithEnd name tag) ∧
      ends (front ++ rest) name front.size =
        .ok (Text.size (front ++ rest), Text.size (front ++ rest)) := by
  have hzero : rest.lower.isBoundary 0 = true := Text.isBoundary_iff.2 ⟨[], _, rfl, rfl⟩
  rcases findEnd?_spec hname hzero with
    ⟨content', behind, h, -, hends, hfirst, hfind⟩ | ⟨hnone, hfind⟩
  · obtain ⟨content, tail, rfl, rfl, htail⟩ := Text.exists_of_lower_eq_append h
    obtain ⟨written, others, rfl, hsame, hends'⟩ := starts_lower_iff.1 ⟨behind, htail, hends⟩
    have hbehind : others.lower = behind := by
      have hlower : written.lower = name.lower := beq_iff_eq.1 hsame
      rw [needle, ← hlower] at htail
      simpa [Text.lower] using htail
    obtain ⟨more, back, rfl, hthrough, hsize⟩ := exists_through others
    refine .inl ⟨content, written, more, back, rfl, ⟨hsame, hends', hthrough, ?_⟩, ?_⟩
    · intro before tag hbefore htag
      have hle := hfirst before.lower tag.lower
        (by rw [hbefore]; exact List.map_append) (Nat.zero_le _) (starts_lower_iff.2 htag)
      rwa [Text.size_lower, Text.size_lower] at hle
    · have hneedle : (needle name).size = Text.size ('<' :: '/' :: written) := by
        have hlower : written.lower = name.lower := beq_iff_eq.1 hsame
        simp only [needle, ← hlower, Text.size_cons, Text.size_lower]
      subst hbehind
      rw [ends_eq hfind, hneedle, Text.size_lower]
      -- The end tag stops behind the `>` that is found, or with the text.
      cases hfound : Text.find? ['>'] (more ++ back).lower with
      | none | some n =>
        rw [hfound] at hsize
        simp only [stops, Option.map_none, Option.map_some, Option.getD_none, Option.getD_some,
          Text.size_append, Text.size_cons, Except.ok.injEq, Prod.mk.injEq, true_and] at hsize ⊢
        omega
  · refine .inr ⟨fun before tag hbefore htag => ?_, ends_eq hfind⟩
    exact hnone before.lower tag.lower (by rw [hbefore]; exact List.map_append) (Nat.zero_le _)
      (starts_lower_iff.2 htag)

/-- A span has two signs and a name, and goes through the first `>` behind them or through the end
of the text. -/
def EndTagAt (source : Text) (span : Span) (name : Text) : Prop :=
  ∃ written more : Text, source.Holds span ('<' :: '/' :: (written ++ more)) ∧
    written.sameLetters name = true ∧ more.head?.all endsName = true ∧
    ((∃ front, '>' ∉ front ∧ more = front ++ ['>']) ∨ '>' ∉ more ∧ span.stop = source.size)

/-- From any place between two characters, raw text goes on to an end tag of its name, or to the end
of the text. -/
theorem exists_ends {source : Text} {start : Nat} (hname : '<' ∉ name)
    (h : source.isBoundary start = true) :
    ∃ (found : Nat × Nat) (content : Text), ends source name start = .ok found ∧
      source.Holds ⟨start, found.1⟩ content ∧ found.1 ≤ found.2 ∧
      source.isBoundary found.2 = true ∧
      (found = (source.size, source.size) ∨ EndTagAt source ⟨found.1, found.2⟩ name) := by
  obtain ⟨front, rest, rfl, rfl⟩ := Text.isBoundary_iff.1 h
  rcases ends_spec front rest hname with
    ⟨content, written, more, back, rfl, hfirst, hends⟩ | ⟨-, hends⟩
  · have htag : Text.Holds (front ++ (content ++ ('<' :: '/' :: (written ++ (more ++ back)))))
        ⟨front.size + content.size,
          front.size + content.size + Text.size ('<' :: '/' :: (written ++ more))⟩
        ('<' :: '/' :: (written ++ more)) := ⟨front ++ content, back, by simp, by simp⟩
    refine ⟨_, content, hends, ⟨front, _, (List.append_assoc ..).symm, rfl⟩, htag.start_le_stop,
      htag.isBoundary_stop, .inr ⟨written, more, htag, hfirst.same, ?_, ?_⟩⟩
    · cases more with
      | nil => rfl
      | cons c more => exact hfirst.ends
    · refine hfirst.through.imp_right fun ⟨hmore, hback⟩ => ⟨hmore, ?_⟩
      simp [hback, Nat.add_assoc]
  · exact ⟨_, rest, hends, ⟨front, [], by simp, by simp⟩, Nat.le_refl _, Text.isBoundary_size _,
      .inl rfl⟩

/-- No element with raw text has a `<` in its name. -/
theorem not_mem_of_raw (h : isOneOf rawNames name = true) : '<' ∉ name := by
  have hall : ∀ n ∈ rawNames, '<' ∉ n.lower := by decide
  obtain ⟨n, hn, hsame⟩ := List.any_eq_true.1 h
  have hlower : n.lower = name.lower := beq_iff_eq.1 hsame
  intro hmem
  exact hall n hn (hlower ▸ List.mem_map.2 ⟨_, hmem, rfl⟩)

end BoundTemplate.Markup.RawText
