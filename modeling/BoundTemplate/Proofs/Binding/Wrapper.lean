import BoundTemplate.Proofs.Binding.List
import BoundTemplate.Proofs.Script.Standard

/-!
# What a binding list that is in order is made of

A list is read between the brackets of a script of its own. The object literal that is found there
ends at a brace, and up to that brace the list is nothing but its properties in a row. The brace may
be one of the list itself: what stands behind it is then not read at all. What is relied on of the
parser is how object literals are written.
-/

namespace BoundTemplate

/-- Blanks in front of a closing parenthesis do not end with a brace. -/
theorem Script.Blanks.getLast?_ne {gap rest : Text} (h : Blanks gap rest)
    (hrest : rest.head? = some ')') : gap.getLast? ≠ some '}' := by
  -- The last character is that of the blanks behind the first one, if there are any.
  have hbehind : ∀ (front t : Text), t ≠ [] → (front ++ t).getLast? = t.getLast? :=
    fun front t ht => List.getLast?_append_of_ne_nil front ht
  induction h with
  | nil => nofun
  | @space c t rest blank more ih =>
    cases t with
    | nil =>
      rintro ⟨⟩
      exact absurd blank (by decide)
    | cons d t =>
      rw [← List.singleton_append, hbehind [c] _ (List.cons_ne_nil d t)]
      exact ih hrest
  | @line content t rest inside ends more ih =>
    cases t with
    | nil => exact absurd (ends ')' hrest) (by decide)
    | cons d t =>
      rw [← List.cons_append, ← List.cons_append, hbehind _ _ (List.cons_ne_nil d t)]
      exact ih hrest
  | @block content t rest inside more ih =>
    have happend : '/' :: '*' :: (content ++ '*' :: '/' :: t) =
        ('/' :: '*' :: (content ++ ['*'])) ++ '/' :: t := by simp
    rw [happend, hbehind _ _ (List.cons_ne_nil '/' t)]
    cases t with
    | nil => decide
    | cons d t =>
      rw [← List.singleton_append, hbehind ['/'] _ (List.cons_ne_nil d t)]
      exact ih hrest

/-- An opening bracket is no blank. -/
theorem Script.Apart.stop_eq_of_bracket {t back : Text} {c : Char} {stop : Nat} (front : Text)
    (h : Apart t front.size stop) (hc : c = '(' ∨ c = '\x7b') (ht : t = front ++ c :: back) :
    stop = front.size := by
  obtain ⟨front', gap, rest, hgap, hsize, rfl, hblanks⟩ := h
  rw [ht, List.append_assoc] at hgap
  obtain ⟨rfl, hback⟩ := Text.append_left_cancel_of_size hgap hsize.symm
  cases hblanks with
  | nil => rw [List.append_nil]
  | space blank =>
    obtain ⟨rfl, -⟩ := List.cons.inj hback
    rcases hc with rfl | rfl <;> exact absurd blank (by decide)
  | line | block =>
    obtain ⟨rfl, -⟩ := List.cons.inj hback
    rcases hc with hc | hc <;> exact absurd hc (by decide)

namespace Binding

open Script

variable {parser : Script.Parser}

/-- A character of a list with its closing brackets is one of the list, or one of the two behind
it. -/
theorem Object.cases_append_closing {list front back : Text} {c : Char}
    (h : list ++ closing = front ++ c :: back) :
    (∃ rest, list = front ++ c :: rest ∧ back = rest ++ closing) ∨ (front = list ∧ c = '}') ∨
      front = list ++ ['}'] ∧ c = ')' := by
  rcases List.append_eq_append_iff.1 h with ⟨more, hfront, hclosing⟩ | ⟨more, hlist, hback⟩
  · rcases more with _ | ⟨_, _ | ⟨_, more⟩⟩
    · cases hclosing
      exact .inr (.inl ⟨hfront.trans (List.append_nil list), rfl⟩)
    · cases hclosing
      exact .inr (.inr ⟨hfront, rfl⟩)
    · cases more <;> cases hclosing
  · rcases more with _ | ⟨_, rest⟩
    · cases hback
      exact .inr (.inl ⟨(hlist.trans (List.append_nil front)).symm, rfl⟩)
    · cases hback
      exact .inl ⟨rest, hlist, rfl⟩

/-- A closing brace of the script of a list stands behind a part of the list. It is the one that is
put behind the list, or one of the list itself. -/
theorem Object.exists_of_holds_brace {list : Text} {place behind : Nat}
    (h : (listScript list).Holds ⟨place, behind⟩ ['}']) :
    ∃ inside, (inside = list ∨ ∃ rest, list = inside ++ '}' :: rest) ∧
      place = opening.size + inside.size ∧ behind = opening.size + inside.size + 1 := by
  obtain ⟨front, back, hscript, hspan⟩ := h
  simp only [Span.mk.injEq] at hspan
  obtain ⟨rfl, rfl⟩ := hspan
  rcases front with _ | ⟨_, _ | ⟨_, inside⟩⟩
  · cases hscript
  · cases hscript
  · simp only [listScript, opening, List.cons_append, List.nil_append, List.append_assoc,
      List.cons.injEq] at hscript
    obtain ⟨rfl, rfl, hscript⟩ := hscript
    have hfront : Text.size ('(' :: '{' :: inside) = opening.size + Text.size inside := by
      rw [Text.size_cons, Text.size_cons, ← Nat.add_assoc]
      rfl
    refine ⟨inside, ?_, hfront, congrArg (· + 1) hfront⟩
    rcases cases_append_closing hscript with ⟨rest, hlist, -⟩ | ⟨hlist, -⟩ | ⟨-, hparen⟩
    · exact .inr ⟨rest, hlist⟩
    · exact .inl hlist
    · cases hparen

/-- Behind a closing brace of the script of a list that is one of the list itself, a closing
parenthesis that only blanks part from it is one of the list itself as well. -/
theorem Object.exists_of_apart {list inside rest : Text} {place behind : Nat}
    (hlist : list = inside ++ '}' :: rest)
    (hapart : Apart (listScript list) (opening.size + inside.size + 1) place)
    (hparen : (listScript list).Holds ⟨place, behind⟩ [')']) :
    ∃ gap others, rest = gap ++ ')' :: others ∧ Blanks gap (')' :: (others ++ closing)) := by
  obtain ⟨front, gap, more, hscript, hfront, hgap, hblanks⟩ := hapart
  obtain ⟨front', back, hscript', hspan⟩ := hparen
  simp only [Span.mk.injEq] at hspan
  obtain ⟨rfl, rfl⟩ := hspan
  have hown : listScript list = (opening ++ inside ++ ['}']) ++ (rest ++ closing) := by
    rw [hlist]
    simp [listScript]
  have hsize : Text.size (opening ++ inside ++ ['}']) = Text.size front := by
    rw [hfront, Text.size_append, Text.size_append]
    rfl
  rw [hown, List.append_assoc front] at hscript
  obtain ⟨rfl, hrest⟩ := Text.append_left_cancel_of_size hscript hsize
  rw [hown, hrest, ← List.append_assoc, List.append_assoc front'] at hscript'
  obtain ⟨-, rfl⟩ := Text.append_left_cancel_of_size hscript' hgap
  rcases cases_append_closing hrest with ⟨others, hothers, rfl⟩ | ⟨-, hbrace⟩ | ⟨hbrace, -⟩
  · exact ⟨gap, others, hothers, hblanks⟩
  · cases hbrace
  · have hends := hblanks.getLast?_ne rfl
    rw [hbrace, List.getLast?_concat] at hends
    exact absurd rfl hends

/-- The object literal that a list is read as starts at the brace in front of the list, right behind
a parenthesis. -/
theorem Object.exists_parentheses {list : Text} {e : Outline} {span : Span}
    {ps : List Outline.Property} (h : e.Spelled (listScript list) span ps)
    (hobject : e.unparenthesized = .object span ps) :
    span.start = 1 ∧ ∃ outer, e = .parenthesized outer (.object span ps) := by
  have hscript : listScript list = '(' :: '\x7b' :: (list ++ closing) := rfl
  have hstart : e.span.start = 0 :=
    h.behind.stop_eq_of_bracket [] (.inl rfl) hscript
  cases e with
  | other => cases hobject
  | object =>
    -- The script does not start with a brace.
    cases hobject
    obtain ⟨front, back, hfront, hspan⟩ := h.opens
    have hsize : Text.size front = 0 := (congrArg Span.start hspan).symm.trans hstart
    rw [Text.size_eq_zero.1 hsize, hscript] at hfront
    cases hfront
  | parenthesized outer inner =>
    obtain rfl : inner = .object span ps := hobject
    obtain ⟨-, hgap, -⟩ := h.parentheses outer rfl
    have houter : outer.start = 0 := hstart
    rw [houter] at hgap
    exact ⟨hgap.stop_eq_of_bracket ['('] (.inr rfl) hscript, outer, rfl⟩

/-- The object literal that a list is read as ends with the brace behind the list, or with a brace
of the list itself that a closing parenthesis follows. Up to there the list is its properties in a
row. -/
theorem Object.row_of_properties (reads : parser.ReadsObjects) {list : Text}
    {ps : List Outline.Property} (h : properties parser list = .ok ps) :
    ∃ inside e, (inside = list ∨ ∃ gap rest, list = inside ++ '}' :: (gap ++ ')' :: rest) ∧
        Blanks gap (')' :: (rest ++ closing))) ∧
      parser.read (listScript list) = .ok e ∧
      e.unparenthesized = .object ⟨1, opening.size + inside.size + 1⟩ ps ∧
      Row (listScript list) opening.size (ps.map Outline.Property.span)
        (opening.size + inside.size) := by
  obtain ⟨e, span, he, hobject, -⟩ := exists_of_properties h
  have hspelled := reads list e span ps he hobject
  obtain ⟨hstart, outer, rfl⟩ := exists_parentheses hspelled hobject
  obtain ⟨place, hrow, hbrace⟩ := hspelled.closes
  obtain ⟨-, -, place', hgap, hparen⟩ := hspelled.parentheses outer rfl
  obtain ⟨inside, hinside, rfl, hstop⟩ := exists_of_holds_brace hbrace
  obtain ⟨start, stop⟩ := span
  obtain rfl : start = 1 := hstart
  obtain rfl : stop = opening.size + inside.size + 1 := hstop
  refine ⟨inside, _, hinside.imp_right ?_, he, rfl, hrow⟩
  rintro ⟨rest, hlist⟩
  obtain ⟨gap, others, rfl, hblanks⟩ := exists_of_apart hlist hgap hparen
  exact ⟨gap, others, hlist, hblanks⟩

/-- Where no error is found, everything that is found is a binding. -/
theorem eq_map_bindingsOf {outcomes : List Outcome} (h : errorsOf outcomes = []) :
    outcomes = (bindingsOf outcomes).map .ok := by
  induction outcomes with
  | nil => rfl
  | cons outcome outcomes ih =>
    cases outcome with
    | error e => cases h
    | ok b => exact congrArg (.ok b :: ·) (ih h)

/-- A list in which no error is found is blank, or its properties are its bindings. -/
theorem bindings_of_no_errors {source : Source} {owner : Nat} {body : Span} {list : Text}
    (hbody : source.text.Holds body list)
    (h : errorsOf (readList parser source owner body) = []) :
    Text.trim list = [] ∨ ∃ ps, Object.properties parser list = .ok ps ∧
      ps.map (Object.outcome source owner body.start) =
        (bindingsOf (readList parser source owner body)).map .ok := by
  rw [← eq_map_bindingsOf h]
  unfold readList at h ⊢
  rw [Source.excerpt_eq hbody] at h ⊢
  dsimp only at h ⊢
  split at h
  · next hblank => exact .inl (List.isEmpty_iff.1 hblank)
  · next hblank =>
    rw [if_neg hblank]
    unfold Object.read at h ⊢
    dsimp only at h ⊢
    cases hproperties : Object.properties parser list with
    | error failure =>
      rw [hproperties] at h
      cases h
    | ok ps => exact .inr ⟨ps, rfl, rfl⟩

/-- An accepted list is, up to the brace at which the object literal ends that it is read as,
nothing but properties in a row, with commas between them and blanks around them: what is in no
property separates. That brace is the one that is put behind the list, unless the list itself has a
brace and a parenthesis that close what is put in front of it. If no error is found in a list that
is not blank, the properties are its bindings. -/
theorem row_of_accepted (parser : Script.Parser) (reads : parser.ReadsObjects) (list : Text) :
    (∀ ps, Object.properties parser list = .ok ps →
      ∃ inside e, (inside = list ∨ ∃ gap rest, list = inside ++ '}' :: (gap ++ ')' :: rest) ∧
          Blanks gap (')' :: (rest ++ Object.closing))) ∧
        parser.read (listScript list) = .ok e ∧
        e.unparenthesized = .object ⟨1, Object.opening.size + inside.size + 1⟩ ps ∧
        Row (listScript list) Object.opening.size (ps.map Outline.Property.span)
          (Object.opening.size + inside.size) ∧
        ∀ x, Object.opening.size ≤ x → x < Object.opening.size + inside.size →
          (∃ p ∈ ps, p.span.start ≤ x ∧ x < p.span.stop) ∨ Separates (listScript list) x) ∧
    ∀ (source : Source) (owner : Nat) (body : Span), source.text.Holds body list →
      errorsOf (readList parser source owner body) = [] →
        Text.trim list = [] ∨ ∃ ps, Object.properties parser list = .ok ps ∧
          ps.map (Object.outcome source owner body.start) =
            (bindingsOf (readList parser source owner body)).map .ok := by
  refine ⟨?_, ?_⟩
  · intro ps hps
    obtain ⟨inside, e, hinside, he, hobject, hrow⟩ := Object.row_of_properties reads hps
    refine ⟨inside, e, hinside, he, hobject, hrow, ?_⟩
    intro x hstart hstop
    refine (hrow.covers hstart hstop).imp_left ?_
    rintro ⟨span, hspan, hx⟩
    obtain ⟨p, hp, rfl⟩ := List.mem_map.1 hspan
    exact ⟨p, hp, hx⟩
  · intro source owner body hbody h
    exact bindings_of_no_errors hbody h

/-- A list with braces of its own, but without parentheses, is read up to its end. -/
theorem row_of_accepted_nested :
    let list : Text := "a: \x7bb: 1\x7d, c: 2".toList
    ∃ ps, Object.properties .standard list = .ok ps ∧
      Row (listScript list) 2 (ps.map Outline.Property.span) 17 := by
  intro list
  have haccepted : (Object.properties .standard list).toBool = true := by decide +kernel
  cases hps : Object.properties .standard list with
  | error failure =>
    rw [hps] at haccepted
    cases haccepted
  | ok ps =>
    obtain ⟨inside, e, rfl | ⟨gap, rest, hlist, -⟩, -, -, hrow, -⟩ :=
      (row_of_accepted .standard Script.Parser.readsObjects_standard list).1 ps hps
    · exact ⟨ps, rfl, hrow⟩
    · have hparen : ')' ∈ list := by
        rw [hlist]
        simp
      exact absurd hparen (by decide)

/-- A list with brackets of its own can close those around it: the object literal ends at its first
brace, what stands behind that brace is not read, and no error is found. -/
theorem closes_brackets_around :
    let list : Text := "a: 1\x7d); (\x7bb: 2".toList
    (match Script.Parser.standard.read (listScript list) with
      | .ok e =>
        match e.unparenthesized with
        | .object span ps => some (span, ps.map Outline.Property.span)
        | _ => none
      | .error _ => none) = some (⟨1, 7⟩, [⟨2, 6⟩]) ∧
      (listScript list).size = 18 ∧
      (readList .standard (.ofText list) 0 ⟨0, list.size⟩).map
        (fun outcome => outcome.toOption.map fun b => (b.name.text, b.range.span)) =
          [some (['a'], ⟨0, 4⟩)] := by
  decide +kernel

end Binding

end BoundTemplate
