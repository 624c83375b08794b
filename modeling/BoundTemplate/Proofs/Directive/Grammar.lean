import BoundTemplate.Directive.Clause
import BoundTemplate.Proofs.Text.Trim

/-!
# The grammar of directives

An import clause is written as a modifier that may be left out, a name, another modifier
that may be left out, the word `from` and a literal, with blanks between them and behind
them. The word `type` may be the name as well as a modifier, so what it is at the start of a
clause depends on what comes next. With that, no text is spelled in two ways.
-/

namespace BoundTemplate

/-- The code points of blanks, one by one. -/
def blankPoints : List Nat := blankRanges.flatMap fun r => List.range' r.1 (r.2 + 1 - r.1)

/-- A blank belongs to no word. -/
theorem isWordPart_of_isBlank {c : Char} (h : isBlank c = true) : isWordPart c = false := by
  have hmem : c.toNat ∈ blankPoints := by
    obtain ⟨r, hr, hc⟩ := List.any_eq_true.1 h
    simp only [Bool.and_eq_true, decide_eq_true_eq] at hc
    exact List.mem_flatMap.2 ⟨r, hr, List.mem_range'_1.2 (by omega)⟩
  have hall : ∀ n ∈ blankPoints, isWordPart (Char.ofNat n) = false := by decide +kernel
  simpa only [Char.ofNat_toNat] using hall c.toNat hmem

namespace Text

/-! ### Words and blanks in front of a text -/

/-- A text that is a word. -/
structure IsWord (t : Text) : Prop where
  starts : ∃ c, t.head? = some c ∧ isWordStart c = true
  parts : ∀ c ∈ t, isWordPart c = true

/-- A text with which no word goes on. -/
def StartsApart (t : Text) : Prop := ∀ c, t.head? = some c → isWordPart c = false

variable {front front' t t' : Text}

theorem blank_nil : Text.Blank [] := fun _ h => nomatch h

theorem startsApart_nil : Text.StartsApart [] := fun _ h => nomatch h

theorem takeWhile_isWordPart (hfront : ∀ c ∈ front, isWordPart c = true) (ht : t.StartsApart) :
    (front ++ t).takeWhile isWordPart = front := by
  rw [List.takeWhile_append_of_pos hfront]
  cases t with
  | nil => exact List.append_nil front
  | cons c t => rw [List.takeWhile_cons_of_neg (by simp [ht c rfl]), List.append_nil]

/-- A word ends in one place only. -/
theorem IsWord.append_inj (hfront : front.IsWord) (ht : t.StartsApart) (hfront' : front'.IsWord)
    (ht' : t'.StartsApart) (h : front ++ t = front' ++ t') : front = front' ∧ t = t' := by
  have hword : front = front' := by
    rw [← takeWhile_isWordPart hfront.parts ht, h, takeWhile_isWordPart hfront'.parts ht']
  exact ⟨hword, List.append_cancel_left (hword ▸ h)⟩

/-- Blanks end in one place only. -/
theorem Blank.append_inj (hfront : front.Blank) (ht : t.StartsSolid) (hfront' : front'.Blank)
    (ht' : t'.StartsSolid) (h : front ++ t = front' ++ t') : front = front' ∧ t = t' := by
  have hrest : t = t' := by
    rw [← trimStart_append hfront ht, h, trimStart_append hfront' ht']
  exact ⟨List.append_cancel_right (hrest ▸ h), hrest⟩

theorem IsWord.ne_nil (h : t.IsWord) : t ≠ [] := by
  rintro rfl
  obtain ⟨c, hc, -⟩ := h.starts
  cases hc

/-- A word does not begin with a blank. -/
theorem IsWord.startsSolid (h : front.IsWord) (t : Text) : Text.StartsSolid (front ++ t) := by
  obtain ⟨c, hc, hstart⟩ := h.starts
  intro d hd
  rw [List.head?_append, hc, Option.some_or] at hd
  cases hd
  rw [← Bool.not_eq_true]
  intro hblank
  have hpart := isWordPart_of_isWordStart hstart
  rw [isWordPart_of_isBlank hblank] at hpart
  cases hpart

/-- No word goes on with blanks. -/
theorem Blank.startsApart (h : front.Blank) (hne : front ≠ []) (t : Text) :
    Text.StartsApart (front ++ t) := by
  cases front with
  | nil => exact absurd rfl hne
  | cons c front =>
    rintro d ⟨⟩
    exact isWordPart_of_isBlank (h c List.mem_cons_self)

/-- Nor does one go on with a sign behind blanks. -/
theorem Blank.startsApart_cons (h : front.Blank) {c : Char} (hc : isWordPart c = false) (t : Text) :
    Text.StartsApart (front ++ c :: t) := by
  cases front with
  | nil =>
    rintro d ⟨⟩
    exact hc
  | cons d front => exact h.startsApart (List.cons_ne_nil d front) _

theorem Blank.append (h : front.Blank) (h' : front'.Blank) : Text.Blank (front ++ front') :=
  List.forall_mem_append.2 ⟨h, h'⟩

/-- Whether no word goes on with a text behind blanks depends on its first character. -/
theorem Blank.startsApart_congr (h : front.Blank)
    (ht : t.StartsApart → t'.StartsApart) (hapart : Text.StartsApart (front ++ t)) :
    Text.StartsApart (front ++ t') := by
  cases front with
  | nil => exact ht hapart
  | cons c front => exact h.startsApart (List.cons_ne_nil c front) t'

end Text

namespace Directive

/-! ### Names and modifiers -/

/-- The name of an import in front of a rest: an asterisk, or a word that ends there. -/
def IsNameBefore (name rest : Text) : Prop := name = ['*'] ∨ name.IsWord ∧ rest.StartsApart

/-- Behind blanks comes an asterisk or a word other than `from`. -/
def NameAhead (t : Text) : Prop :=
  ∃ gap name rest, t = gap ++ (name ++ rest) ∧ gap.Blank ∧ IsNameBefore name rest ∧
    name ≠ "from".toList

namespace IsNameBefore

variable {name name' rest rest' : Text}

theorem startsSolid (h : IsNameBefore name rest) (t : Text) : Text.StartsSolid (name ++ t) := by
  rcases h with rfl | ⟨h, -⟩
  · rintro c ⟨⟩
    decide
  · exact h.startsSolid t

/-- A name ends in one place only. -/
theorem append_inj (h : IsNameBefore name rest) (h' : IsNameBefore name' rest')
    (heq : name ++ rest = name' ++ rest') : name = name' ∧ rest = rest' := by
  -- The asterisk starts no word.
  have hasterisk (t t' : Text) (ht : t.IsWord) :
      '*' :: t' ≠ t ++ rest' ∧ t ++ rest ≠ '*' :: t' := by
    obtain ⟨c, hc, hstart⟩ := ht.starts
    have hne : c ≠ '*' := by
      rintro rfl
      exact absurd hstart (by decide)
    cases t with
    | nil => cases hc
    | cons d t =>
      cases hc
      exact ⟨fun h => hne (List.cons.inj h).1.symm, fun h => hne (List.cons.inj h).1⟩
  rcases h with rfl | ⟨h, hrest⟩ <;> rcases h' with rfl | ⟨h', hrest'⟩
  · exact ⟨rfl, List.append_cancel_left heq⟩
  · exact absurd heq (hasterisk name' rest h').1
  · exact absurd heq (hasterisk name rest' h).2
  · exact h.append_inj hrest h' hrest' heq

end IsNameBefore

theorem isWord_type : Text.IsWord "type".toList :=
  ⟨⟨'t', rfl, by decide⟩, List.all_eq_true.1 (by decide)⟩

theorem isWord_from : Text.IsWord "from".toList :=
  ⟨⟨'f', rfl, by decide⟩, List.all_eq_true.1 (by decide)⟩

/-- What comes next behind blanks is told by what it is. -/
theorem nameAhead_iff {gap name rest : Text} (hgap : gap.Blank) (hname : IsNameBefore name rest) :
    NameAhead (gap ++ (name ++ rest)) ↔ name ≠ "from".toList := by
  constructor
  · rintro ⟨gap', name', rest', heq, hgap', hname', hne⟩
    obtain ⟨-, hnames⟩ :=
      hgap.append_inj (hname.startsSolid _) hgap' (hname'.startsSolid _) heq
    obtain ⟨rfl, -⟩ := hname.append_inj hname' hnames
    exact hne
  · exact fun hne => ⟨gap, name, rest, rfl, hgap, hname, hne⟩

/-- How a modifier is written that has some blanks behind it, if there is one. -/
def modifier : Option Text → Text
  | none => []
  | some gap => "type".toList ++ gap

/-- What stands in front of the word `from`. -/
structure Head where
  /-- The blanks behind a modifier in front of the name, if there is one. -/
  leading : Option Text
  name : Text
  /-- The blanks behind the name. -/
  gap : Text
  /-- The blanks behind a modifier behind the name, if there is one. -/
  trailing : Option Text

namespace Head

/-- How a head is written. -/
def text (h : Head) : Text := modifier h.leading ++ (h.name ++ (h.gap ++ modifier h.trailing))

/-- Whether there is a modifier. -/
def typed (h : Head) : Bool := h.leading.isSome || h.trailing.isSome

/-- What follows the name, in front of a rest. -/
def behindName (h : Head) (rest : Text) : Text := h.gap ++ (modifier h.trailing ++ rest)

/-- The first word or asterisk. -/
def first (h : Head) : Text := if h.leading.isSome then "type".toList else h.name

/-- What follows that, in front of a rest. -/
def behindFirst (h : Head) (rest : Text) : Text :=
  match h.leading with
  | some gap => gap ++ (h.name ++ h.behindName rest)
  | none => h.behindName rest

/-- A head is spelled in the right way in front of a rest. -/
structure Reads (h : Head) (rest : Text) : Prop where
  blank_leading : ∀ gap, h.leading = some gap → gap.Blank
  blank_gap : h.gap.Blank
  blank_trailing : ∀ gap, h.trailing = some gap → gap.Blank
  /-- The first word, which is a modifier or the name, is a whole one. -/
  first : IsNameBefore h.first (h.behindFirst rest)
  name : IsNameBefore h.name (h.behindName rest)
  /-- A modifier behind the name is a whole word. -/
  apart_trailing : ∀ gap, h.trailing = some gap → Text.StartsApart (gap ++ rest)
  /-- There is one modifier at most. -/
  single : h.leading = none ∨ h.trailing = none
  /-- The word `type` at the start is a modifier if an asterisk or a word other than `from` comes
  next, and it is the name otherwise. -/
  leading_iff : h.first = "type".toList →
    (h.leading.isSome = true ↔ NameAhead (h.behindFirst rest))

variable {h h' : Head} {rest rest' : Text}

theorem text_append (h : Head) (rest : Text) :
    h.text ++ rest = modifier h.leading ++ (h.name ++ h.behindName rest) := by
  simp only [text, behindName, List.append_assoc]

theorem text_append_eq_first (h : Head) (rest : Text) :
    h.text ++ rest = h.first ++ h.behindFirst rest := by
  rw [text_append]
  unfold first behindFirst
  cases h.leading with
  | none => rfl
  | some gap => exact List.append_assoc _ _ _

/-- The word that follows a modifier at the start is not `from`. -/
theorem Reads.name_ne_from (hr : h.Reads rest) {gap : Text} (hleading : h.leading = some gap) :
    h.name ≠ "from".toList := by
  have hiff := hr.leading_iff (by rw [Head.first, hleading]; rfl)
  rw [behindFirst, hleading] at hiff
  exact (nameAhead_iff (hr.blank_leading gap hleading) hr.name).1 (hiff.1 rfl)

/-- A modifier at the start is a whole word. -/
theorem Reads.apart_leading (hr : h.Reads rest) {gap : Text} (hleading : h.leading = some gap) :
    Text.StartsApart (gap ++ (h.name ++ h.behindName rest)) := by
  have hfirst := hr.first
  rw [Head.first, behindFirst, hleading] at hfirst
  rcases hfirst with htype | ⟨-, hapart⟩
  · cases htype
  · exact hapart

/-- What it takes to spell a head, by whether it starts with a modifier. -/
theorem reads_of_name (blank_leading : ∀ gap, h.leading = some gap → gap.Blank)
    (blank_gap : h.gap.Blank) (blank_trailing : ∀ gap, h.trailing = some gap → gap.Blank)
    (name : IsNameBefore h.name (h.behindName rest))
    (apart_trailing : ∀ gap, h.trailing = some gap → Text.StartsApart (gap ++ rest))
    (single : h.leading = none ∨ h.trailing = none)
    (behind_leading : ∀ gap, h.leading = some gap →
      Text.StartsApart (gap ++ (h.name ++ h.behindName rest)) ∧ h.name ≠ "from".toList)
    (no_leading : h.leading = none → h.name = "type".toList → ¬NameAhead (h.behindName rest)) :
    h.Reads rest := by
  refine ⟨blank_leading, blank_gap, blank_trailing, ?_, name, apart_trailing, single,
    fun htype => ?_⟩
  · unfold Head.first behindFirst
    cases hleading : h.leading with
    | none => exact name
    | some gap => exact .inr ⟨isWord_type, (behind_leading gap hleading).1⟩
  · unfold Head.first at htype
    unfold behindFirst
    cases hleading : h.leading with
    | none =>
      rw [hleading] at htype
      exact iff_of_false Bool.false_ne_true (no_leading hleading htype)
    | some gap =>
      exact iff_of_true rfl
        ((nameAhead_iff (blank_leading gap hleading) name).2 (behind_leading gap hleading).2)

/-- A modifier behind the name is a word that comes next. -/
theorem Reads.nameAhead_behindName (hr : h.Reads rest) {gap : Text}
    (htrailing : h.trailing = some gap) : NameAhead (h.behindName rest) := by
  rw [behindName, htrailing, modifier, List.append_assoc]
  exact (nameAhead_iff hr.blank_gap
    (.inr ⟨isWord_type, hr.apart_trailing gap htrailing⟩)).2 (by decide)

/-- A modifier behind the name is the only one. -/
theorem Reads.leading_eq_none (hr : h.Reads rest) {gap : Text} (htrailing : h.trailing = some gap) :
    h.leading = none := by
  rcases hr.single with hnone | hnone
  · exact hnone
  · rw [htrailing] at hnone
    cases hnone

/-- A name that is followed by a modifier is not `type`. -/
theorem Reads.name_ne_type (hr : h.Reads rest) {gap : Text} (htrailing : h.trailing = some gap) :
    h.name ≠ "type".toList := by
  have hleading := hr.leading_eq_none htrailing
  intro hname
  have hiff := hr.leading_iff (by rw [Head.first, hleading]; exact hname)
  rw [behindFirst, hleading] at hiff
  cases hiff.2 (hr.nameAhead_behindName htrailing)

/-- A head without a modifier has none behind its name, either. -/
def Ends (h : Head) (rest : Text) : Prop :=
  h.typed = false → ∀ t, rest = "type".toList ++ t → ¬t.StartsApart

/-- Two heads in front of the same words agree on the modifier behind the name. -/
theorem Reads.trailing_unique (hr : h.Reads rest) (hr' : h'.Reads rest') (hends : h.Ends rest)
    (hsolid : rest.StartsSolid) (hsolid' : rest'.StartsSolid) (hleading : h.leading = h'.leading)
    (heq : modifier h.trailing ++ rest = modifier h'.trailing ++ rest') {gap : Text}
    (htrailing : h'.trailing = some gap) : h.trailing = some gap ∧ rest = rest' := by
  rw [htrailing, modifier, List.append_assoc] at heq
  cases ht : h.trailing with
  | none =>
    have htyped : h.typed = false := by
      rw [typed, hleading, hr'.leading_eq_none htrailing, ht]
      rfl
    rw [ht] at heq
    exact absurd (hr'.apart_trailing gap htrailing) (hends htyped _ heq)
  | some gap' =>
    rw [ht, modifier, List.append_assoc] at heq
    obtain ⟨rfl, hrest⟩ := (hr.blank_trailing gap' ht).append_inj hsolid
      (hr'.blank_trailing gap htrailing) hsolid' (List.append_cancel_left heq)
    exact ⟨rfl, hrest⟩

/-- A text starts with one head. -/
theorem Reads.unique (hr : h.Reads rest) (hr' : h'.Reads rest') (hends : h.Ends rest)
    (hends' : h'.Ends rest') (hsolid : rest.StartsSolid) (hsolid' : rest'.StartsSolid)
    (heq : h.text ++ rest = h'.text ++ rest') : h = h' ∧ rest = rest' := by
  have hmodifier (trailing : Option Text) {t : Text} (ht : t.StartsSolid) :
      Text.StartsSolid (modifier trailing ++ t) := by
    cases trailing with
    | none => exact ht
    | some gap =>
      rw [modifier, List.append_assoc]
      exact isWord_type.startsSolid _
  -- Both start with the same word, so both or none start with a modifier.
  have hwords := heq
  rw [text_append_eq_first, text_append_eq_first] at hwords
  obtain ⟨hfirst, hbehind⟩ := hr.first.append_inj hr'.first hwords
  have hsome : h.leading.isSome = h'.leading.isSome := by
    have htype (k : Head) (hk : k.leading.isSome = true) : k.first = "type".toList := if_pos hk
    rw [Bool.eq_iff_iff]
    constructor
    · intro hk
      refine (hr'.leading_iff (hfirst ▸ htype h hk)).2 ?_
      rw [← hbehind]
      exact (hr.leading_iff (htype h hk)).1 hk
    · intro hk
      refine (hr.leading_iff (hfirst ▸ htype h' hk)).2 ?_
      rw [hbehind]
      exact (hr'.leading_iff (htype h' hk)).1 hk
  obtain ⟨hleading, hnames⟩ : h.leading = h'.leading ∧
      h.name ++ h.behindName rest = h'.name ++ h'.behindName rest' := by
    rw [text_append, text_append] at heq
    unfold behindFirst at hbehind
    cases hl : h.leading with
    | none =>
      cases hl' : h'.leading with
      | none =>
        rw [hl, hl'] at heq
        exact ⟨rfl, heq⟩
      | some gap' => rw [hl, hl'] at hsome; cases hsome
    | some gap =>
      cases hl' : h'.leading with
      | none => rw [hl, hl'] at hsome; cases hsome
      | some gap' =>
        rw [hl, hl'] at hbehind
        obtain ⟨rfl, hrest⟩ := (hr.blank_leading gap hl).append_inj (hr.name.startsSolid _)
          (hr'.blank_leading gap' hl') (hr'.name.startsSolid _) hbehind
        exact ⟨rfl, hrest⟩
  obtain ⟨hname, hgaps⟩ := hr.name.append_inj hr'.name hnames
  obtain ⟨hgap, htrails⟩ := hr.blank_gap.append_inj (hmodifier _ hsolid) hr'.blank_gap
    (hmodifier _ hsolid') hgaps
  obtain ⟨htrailing, hrest⟩ : h.trailing = h'.trailing ∧ rest = rest' := by
    cases ht' : h'.trailing with
    | some gap => exact hr.trailing_unique hr' hends hsolid hsolid' hleading htrails ht'
    | none =>
      cases ht : h.trailing with
      | some gap =>
        obtain ⟨hsame, -⟩ :=
          hr'.trailing_unique hr hends' hsolid' hsolid hleading.symm htrails.symm ht
        rw [ht'] at hsame
        cases hsame
      | none =>
        rw [ht, ht'] at htrails
        exact ⟨rfl, htrails⟩
  cases h
  cases h'
  dsimp only at hleading hname hgap htrailing
  subst hleading hname hgap htrailing
  exact ⟨rfl, hrest⟩

/-- The word `from` is no modifier. -/
theorem ends_from (h : Head) (rest : Text) : h.Ends ("from".toList ++ rest) := by
  intro _ t heq
  cases heq

end Head

/-! ### Literals and clauses -/

/-- What may stand between two quotes: a backslash with any character behind it, and characters
other than the quote, a backslash and those at which a line ends. -/
inductive LiteralBody (mark : Char) : Text → Prop
  | nil : LiteralBody mark []
  | escaped {t : Text} (c : Char) (rest : LiteralBody mark t) : LiteralBody mark ('\\' :: c :: t)
  | plain {c : Char} {t : Text} (ne_mark : c ≠ mark) (ne_backslash : c ≠ '\\')
      (ne_return : c ≠ '\r') (ne_feed : c ≠ '\n') (rest : LiteralBody mark t) :
      LiteralBody mark (c :: t)

/-- The pieces of which an import clause is made up, in their order. -/
structure Spelling extends Head where
  /-- The blanks behind `from`. -/
  inner : Text
  /-- The quote, as it is written and as it is read. -/
  mark : Char
  quote : Quote
  /-- What stands between the quotes. -/
  content : Text
  /-- The blanks at the end. -/
  back : Text

namespace Spelling

/-- What follows the word `from`. -/
def behindFrom (s : Spelling) : Text :=
  s.inner ++ (s.mark :: (s.content ++ (s.mark :: s.back)))

/-- A text is spelled as an import clause. -/
structure Spells (s : Spelling) (t : Text) : Prop where
  text_eq : s.text ++ ("from".toList ++ s.behindFrom) = t
  head : s.Reads ("from".toList ++ s.behindFrom)
  /-- The word `from` is a whole one. -/
  apart_from : s.behindFrom.StartsApart
  blank_inner : s.inner.Blank
  quote : Quote.ofChar? s.mark = some s.quote
  content : LiteralBody s.mark s.content
  blank_back : s.back.Blank

/-- What a clause says that is spelled at an offset. -/
def clauseAt (s : Spelling) (offset : Nat) : Clause where
  span :=
    ⟨offset, offset + Text.size
      (s.text ++ ("from".toList ++ (s.inner ++ (s.mark :: (s.content ++ [s.mark])))))⟩
  name := ⟨offset + (modifier s.leading).size, s.name⟩
  typeOnly := s.typed
  module :=
    ⟨⟨offset + Text.size (s.text ++ ("from".toList ++ (s.inner ++ [s.mark]))), s.content⟩, s.quote⟩

end Spelling

/-- A text is a directive: a word and, behind a colon, a parameter that is an import clause if the
word asks for one. -/
def IsDirective (t : Text) : Prop :=
  ∃ front name gap param, t = front ++ (name ++ (gap ++ ':' :: param)) ∧ front.Blank ∧
    name.IsWord ∧ gap.Blank ∧
      (name ∈ Outline.importing → ∃ s : Spelling, s.Spells (Text.trim param))

end Directive

end BoundTemplate
