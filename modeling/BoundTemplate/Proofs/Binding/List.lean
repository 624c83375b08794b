import BoundTemplate.Binding.List
import BoundTemplate.Proofs.Binding.Laws
import BoundTemplate.Proofs.Binding.Spread
import BoundTemplate.Proofs.Text.Excerpt

/-!
# Where the bindings of a list lie

What is relied on of the parser is only that the spans it reports are in order and inside of
what is read. Then the bindings of a list are spread over it, whether the list is in order
or each of its entries is read on its own or saved.
-/

namespace BoundTemplate

namespace Binding

variable {source : Source} {parser : Script.Parser}

/-! ### Lists in order -/

/-- A place between characters of a list is one of the script that holds the list. -/
theorem Object.isBoundary_unwrap {list : Text} {n : Nat}
    (h : Text.isBoundary (opening ++ list ++ closing) n = true) (hstart : opening.size ≤ n)
    (hstop : n ≤ opening.size + list.size) : list.isBoundary (unwrap n) = true := by
  have hlist : Text.Holds (opening ++ list ++ closing)
      ⟨opening.size, opening.size + list.size⟩ list := ⟨opening, closing, rfl, rfl⟩
  exact hlist.isBoundary_sub h hstart hstop

/-- Offsets of a script keep their order in the source. -/
theorem Object.add_unwrap_le {m n : Nat} (base : Nat) (h : m ≤ n) :
    base + unwrap m ≤ base + unwrap n :=
  Nat.add_le_add_left (Nat.sub_le_sub_right h _) _

/-- A property that gives a binding has a name for it. Either the binding has no parameter, or that
is the value behind a colon. -/
theorem Object.exists_of_outcome {owner base : Nat} {p : Script.Outline.Property} {b : Binding}
    (h : outcome source owner base p = .ok b) :
    ∃ span key form value name, p = .entry span key form value ∧
      nameSpan? key.form (unwrapSpan base key.span) = some name ∧
      (b = lacking source owner name (unwrapSpan base key.span).stop ∨
        form = .value ∧ b = complete source owner name (unwrapSpan base key.span).start
          (unwrapSpan base value)) := by
  cases p with
  | spread span => cases h
  | entry span key form value =>
    unfold outcome refuse at h
    dsimp only at h
    split at h
    · cases h
    rcases hname : nameSpan? key.form (unwrapSpan base key.span) with _ | name
    · rw [hname] at h
      cases form <;> cases h
    rw [hname] at h
    refine ⟨span, key, form, value, name, rfl, hname, ?_⟩
    cases form with
    | method | getter | setter => cases h
    | shorthand =>
      cases h
      exact .inl rfl
    | value =>
      cases h
      split
      · exact .inl rfl
      · exact .inr ⟨rfl, rfl⟩

/-- What a property gives lies where the property does. -/
theorem Object.liesIn_of_outcome {list : Excerpt} {owner : Nat} {p : Script.Outline.Property}
    {b : Binding} (hlist : source.text.Holds list.span list.text)
    (hp : p.Placed (Script.listScript list.text) (Script.listBody list.text))
    (h : outcome source owner list.offset p = .ok b) :
    b.LiesIn source (list.offset + unwrap p.span.start)
      (list.offset + unwrap p.span.stop + 1) := by
  obtain ⟨span, key, form, value, name, rfl, -, hb⟩ := exists_of_outcome h
  obtain ⟨⟨hstart, hlt, hstop, hstarts, hstops⟩, hkey, hvalue, -⟩ := hp
  have hle := Nat.le_of_lt hlt
  have ha := hlist.isBoundary_add (isBoundary_unwrap hstarts hstart (Nat.le_trans hle hstop))
  have hz := hlist.isBoundary_add (isBoundary_unwrap hstops (Nat.le_trans hstart hle) hstop)
  obtain ⟨hkeyStart, hkeyLt, hkeyStop, -⟩ := hkey
  obtain ⟨hvalueStart, hvalueLt, hvalueStop, -⟩ := hvalue
  rcases hb with rfl | ⟨-, rfl⟩
  · refine liesIn_lacking owner _ ha hz ?_ ?_
    · exact add_unwrap_le _ (Nat.le_trans hkeyStart (Nat.le_of_lt hkeyLt))
    · exact add_unwrap_le _ hkeyStop
  · refine liesIn_complete owner _ _ ha hz ?_ ?_ ?_
    · exact add_unwrap_le _ hvalueStart
    · exact add_unwrap_le _ (Nat.le_of_lt hvalueLt)
    · exact add_unwrap_le _ hvalueStop

/-- The bindings among what some things give, each by itself. -/
theorem bindingsOf_map {α : Type} (f : α → Outcome) (items : List α) :
    bindingsOf (items.map f) = items.flatMap fun x => (f x).toOption.toList := by
  rw [bindingsOf, List.filterMap_map, List.filterMap_eq_flatMap_toList]
  rfl

/-- The bindings among what is found are what is found without an error. -/
theorem mem_bindingsOf {outcomes : List Outcome} {b : Binding} :
    b ∈ bindingsOf outcomes ↔ .ok b ∈ outcomes := by
  unfold bindingsOf
  rw [List.mem_filterMap]
  constructor
  · rintro ⟨outcome, hmem, hb⟩
    cases outcome with
    | error e => cases hb
    | ok b' =>
      cases hb
      exact hmem
  · intro h
    exact ⟨.ok b, h, rfl⟩

theorem bindingsOf_error_cons (e : ParseError) (outcomes : List Outcome) :
    bindingsOf (.error e :: outcomes) = bindingsOf outcomes := rfl

theorem bindingsOf_flatMap {α : Type} (f : α → List Outcome) (items : List α) :
    bindingsOf (items.flatMap f) = items.flatMap fun x => bindingsOf (f x) :=
  List.filterMap_flatMap

/-- The bindings of a list that is in order are spread over it. -/
theorem Object.spread_of_read {list : Excerpt} {owner : Nat} {outcomes : List Outcome}
    (hlist : source.text.Holds list.span list.text) (placed : parser.ListPlaced list.text)
    (h : read parser source owner list = .ok outcomes) :
    Spread source list.offset (list.stop + 1) (bindingsOf outcomes) := by
  unfold read at h
  rcases hp : properties parser list.text with failure | ps
  · rw [hp] at h
    cases h
  · rw [hp] at h
    cases h
    obtain ⟨e, span, he, -, rfl⟩ := exists_of_properties hp
    obtain ⟨hplaced, hsorted⟩ := placed e he
    rw [bindingsOf_map]
    refine Spread.flatMap (fun p => list.offset + unwrap p.span.start)
      (fun p => list.offset + unwrap p.span.stop + 1) ?_ ?_ ?_
    · intro p hp
      rcases ho : outcome source owner list.offset p with e | b
      · exact .nil source _ _
      · exact .singleton (liesIn_of_outcome hlist (hplaced p hp) ho)
    · intro p hp
      obtain ⟨hstart, hspan, hstop, -⟩ := (hplaced p hp).inside
      simp only [unwrap, Script.listBody, Excerpt.stop] at hstart hstop ⊢
      omega
    · refine hsorted.imp_of_mem fun {p q} hp hq hlt => ?_
      obtain ⟨hstart, hspan, -⟩ := (hplaced p hp).inside
      simp only [unwrap, Script.listBody] at hstart ⊢
      omega

/-! ### Entries that are saved -/

/-- The expression that is saved of a value is the one at the start of the value, or of a part at
its front. -/
theorem Salvage.exists_of_expressionSpan? {value : Text} {span : Span}
    (h : expressionSpan? parser value = some span) :
    ∃ front back, value = front ++ back ∧ ∃ e, parser.read front = .ok e ∧ e.span = span := by
  unfold expressionSpan? at h
  split at h
  · cases h
  · split at h
    · next e he =>
      cases h
      exact ⟨value, [], (List.append_nil value).symm, e, he, rfl⟩
    · split at h
      · next offset hoffset =>
        split at h
        · dsimp only at h
          split at h
          · cases h
          · rcases he : parser.read (value.takeBytes offset).trimEnd with d | e
            · rw [he] at h
              cases h
            · rw [he] at h
              cases h
              obtain ⟨blanks, -, hblanks⟩ := Text.exists_trimEnd_append (value.takeBytes offset)
              have htake := Text.takeBytes_append_dropBytes offset value
              rw [← hblanks, List.append_assoc] at htake
              exact ⟨_, _, htake.symm, e, he, rfl⟩
        · cases h
      · cases h

/-- The expression that is saved of a value lies in it and has bytes. -/
theorem Salvage.bounds_of_expressionSpan? {value : Text} {span : Span}
    (placed : ∀ part, part <:+: value → parser.ExpressionPlaced part)
    (h : expressionSpan? parser value = some span) :
    span.start < span.stop ∧ span.stop ≤ value.size := by
  obtain ⟨front, back, rfl, e, he, rfl⟩ := exists_of_expressionSpan? h
  have hplaced := placed front (List.prefix_append front back).isInfix e he
  refine ⟨hplaced.1, Nat.le_trans hplaced.2 ?_⟩
  rw [Text.size_append]
  exact Nat.le_add_right _ _

/-- The binding that is saved of an entry has no parameter, which would stand at the start of a part
behind the name, or its parameter is the expression that is saved of what stands behind a colon. -/
theorem Salvage.exists_of_read {entry : Excerpt} {owner : Nat} {b : Binding}
    (h : read parser source owner entry = .ok b) :
    (∃ place, (entry.drop (name entry).2).Contains place ∧
        b = lacking source owner (name entry).1.span place.offset) ∨
      ∃ value span, (entry.drop (name entry).2).Contains value ∧
        expressionSpan? parser value.text = some span ∧
        b = complete source owner (name entry).1.span (name entry).1.offset
          (span.shift value.offset) := by
  have hvalue := (entry.drop (name entry).2).contains_behind_first
  unfold read refuse at h
  dsimp only at h
  repeat' split at h
  all_goals cases h
  · next span hspan => exact .inr ⟨_, span, hvalue.trans (Excerpt.contains_trim _), hspan, rfl⟩
  · exact .inl ⟨_, hvalue, rfl⟩
  · exact .inl ⟨_, .refl _, rfl⟩

/-- The binding that is saved of an entry lies in it. -/
theorem Salvage.liesIn_of_read {entry : Excerpt} {owner : Nat} {b : Binding}
    (hentry : source.text.Holds entry.span entry.text)
    (placed : ∀ part, part <:+: entry.text → parser.ExpressionPlaced part)
    (h : read parser source owner entry = .ok b) :
    b.LiesIn source entry.offset (entry.stop + 1) := by
  have ha : source.text.isBoundary entry.offset = true := hentry.isBoundary_start
  have hz : source.text.isBoundary entry.stop = true := hentry.isBoundary_stop
  have hbehind := entry.contains_drop (name entry).2
  obtain ⟨place, hplace, rfl⟩ | ⟨value, span, hvalue, hspan, rfl⟩ := exists_of_read h
  · obtain ⟨hstart, hend⟩ := (hbehind.trans hplace).bounds
    exact liesIn_lacking owner _ ha hz hstart (Nat.le_trans (Nat.le_add_right _ _) hend)
  · have hinside := hbehind.trans hvalue
    obtain ⟨hle, hstop⟩ := bounds_of_expressionSpan?
      (fun part hpart => placed part (hpart.trans hinside.infix_text)) hspan
    obtain ⟨hstart, hend⟩ := hinside.bounds
    refine liesIn_complete owner _ _ ha hz ?_ ?_ ?_
    · simp only [Span.start_shift]
      omega
    · simp only [Span.start_shift, Span.stop_shift]
      omega
    · simp only [Excerpt.stop] at hend
      simp only [Span.stop_shift, Excerpt.stop]
      omega

/-! ### Entries of a list -/

/-- Pieces are parts of their text, where they stand in it. -/
theorem contains_of_mem_place {offset : Nat} {parts : List Text} :
    ∀ e ∈ place offset parts, Excerpt.Contains ⟨offset, [','].intercalate parts⟩ e := by
  induction parts generalizing offset with
  | nil => simp [place]
  | cons piece parts ih =>
    intro e he
    rcases List.mem_cons.1 he with rfl | he
    · cases parts with
      | nil => exact ⟨[], [], by simp [List.intercalate], rfl⟩
      | cons next parts =>
        refine ⟨[], [','] ++ [','].intercalate (next :: parts), ?_, rfl⟩
        simp [List.intercalate, List.intersperse_cons_cons]
    · cases parts with
      | nil => cases he
      | cons next parts =>
        have hrest := ih e he
        refine Excerpt.Contains.trans ⟨piece ++ [','], [], ?_, ?_⟩ hrest
        · simp [List.intercalate, List.intersperse_cons_cons]
        · simp only [Text.size_append, Nat.add_assoc]
          rfl

/-- Between two pieces stands a comma. -/
theorem pairwise_place (offset : Nat) (parts : List Text) :
    (place offset parts).Pairwise fun e e' => e.stop < e'.offset := by
  induction parts generalizing offset with
  | nil => exact .nil
  | cons piece parts ih =>
    refine List.pairwise_cons.2 ⟨fun e he => ?_, ih _⟩
    have h := (contains_of_mem_place e he).bounds.1
    simp only [Excerpt.stop] at h ⊢
    omega

/-- The entries of a list are parts of it, and between two of them stands a comma. -/
theorem entries_spec (list : Excerpt) : (∀ e ∈ entries list, list.Contains e) ∧
    (entries list).Pairwise fun e e' => e.stop < e'.offset := by
  have hlist : (⟨list.offset, [','].intercalate (pieces .none list.text)⟩ : Excerpt) = list := by
    rw [intercalate_pieces]
  unfold entries
  constructor
  · intro e he
    obtain ⟨piece, hpiece, rfl⟩ := List.mem_map.1 (List.mem_of_mem_filter he)
    have h := contains_of_mem_place piece hpiece
    rw [hlist] at h
    exact h.trans piece.contains_trim
  · refine List.Pairwise.filter _ (List.pairwise_map.2 ?_)
    refine (pairwise_place list.offset _).imp fun {e e'} hlt => ?_
    have h := e.contains_trim.bounds
    have h' := e'.contains_trim.bounds
    omega

/-- The bindings of an entry are spread over it. -/
theorem spread_readEntry {entry : Excerpt} {owner : Nat}
    (hentry : source.text.Holds entry.span entry.text) (placed : parser.Placed entry.text) :
    Spread source entry.offset (entry.stop + 1)
      (bindingsOf (readEntry parser source owner entry)) := by
  unfold readEntry
  split
  · next outcomes h =>
    exact Object.spread_of_read hentry (placed _ List.infix_rfl).1 h
  · rcases h : Salvage.read parser source owner entry with e | b
    · exact .nil source _ _
    · exact .singleton (Salvage.liesIn_of_read hentry (fun part hpart => (placed part hpart).2) h)

/-- The bindings of a list are spread over it. -/
theorem spread_readList {body : Span} {list : Text} (owner : Nat)
    (hbody : source.text.Holds body list) (placed : parser.Placed source.text) :
    Spread source body.start (body.stop + 1) (bindingsOf (readList parser source owner body)) := by
  have hlist : source.excerpt body = ⟨body.start, list⟩ := by
    rw [Source.excerpt, hbody.slice_eq]
  have hspan : Excerpt.span ⟨body.start, list⟩ = body := hbody.span_mk
  have hholds : source.text.Holds (Excerpt.span ⟨body.start, list⟩) list := by
    rw [hspan]
    exact hbody
  have hstop : Excerpt.stop ⟨body.start, list⟩ = body.stop := congrArg Span.stop hspan
  have hplaced : parser.Placed list := by
    obtain ⟨front, back, hsource, -⟩ := hbody
    exact placed.part ⟨front, back, hsource.symm⟩
  unfold readList
  dsimp only
  rw [hlist, ← hstop]
  split
  · exact .nil source _ _
  · split
    · next outcomes h =>
      exact Object.spread_of_read hholds (hplaced list List.infix_rfl).1 h
    · next failure h =>
      obtain ⟨hcontains, hsorted⟩ := entries_spec ⟨body.start, list⟩
      rw [bindingsOf_error_cons, bindingsOf_flatMap]
      refine Spread.flatMap (fun e => e.offset) (fun e => e.stop + 1) ?_ ?_ ?_
      · intro e he
        have hentry := hcontains e he
        exact spread_readEntry (hentry.holds hholds) (hplaced.part hentry.infix_text)
      · intro e he
        obtain ⟨hle, hle'⟩ := (hcontains e he).bounds
        exact ⟨hle, Nat.succ_le_succ hle'⟩
      · exact hsorted

/-- A list that is not blank stands where its span says. -/
theorem holds_of_not_blank {body : Span} (h : ¬(source.excerpt body).text.trim.isEmpty = true) :
    source.text.Holds body (source.text.slice body) := by
  refine Text.holds_slice fun hempty => h ?_
  rw [Source.excerpt, hempty]
  rfl

/-- A binding of a list that is read as an object literal is given by one of its properties. -/
theorem Object.exists_property_of_read {list : Excerpt} {owner : Nat} {outcomes : List Outcome}
    {b : Binding} (h : read parser source owner list = .ok outcomes)
    (hb : b ∈ bindingsOf outcomes) :
    ∃ e p, parser.read (Script.listScript list.text) = .ok e ∧
      properties parser list.text = .ok e.properties ∧ p ∈ e.properties ∧
        outcome source owner list.offset p = .ok b := by
  unfold read at h
  rcases hps : properties parser list.text with failure | ps
  · rw [hps] at h
    cases h
  · rw [hps] at h
    cases h
    obtain ⟨p, hp, ho⟩ := List.mem_map.1 (mem_bindingsOf.1 hb)
    obtain ⟨e, -, he, -, rfl⟩ := exists_of_properties hps
    exact ⟨e, p, he, rfl, hp, ho⟩

/-- A binding of a list is given by a property of it or of an entry, or is saved of an entry. -/
theorem exists_of_mem_readList {body : Span} {owner : Nat} {b : Binding}
    (h : b ∈ bindingsOf (readList parser source owner body)) :
    ∃ part : Excerpt, source.text.Holds part.span part.text ∧
      part.text <:+: source.text.slice body ∧
      ((∃ e p, parser.read (Script.listScript part.text) = .ok e ∧ p ∈ e.properties ∧
        Object.outcome source owner part.offset p = .ok b) ∨
        Salvage.read parser source owner part = .ok b) := by
  unfold readList at h
  dsimp only at h
  split at h
  · cases h
  next hblank =>
  have hlist := (holds_of_not_blank hblank).excerpt
  split at h
  · next outcomes hread =>
    obtain ⟨e, p, he, -, hp, ho⟩ := Object.exists_property_of_read hread h
    exact ⟨_, hlist, List.infix_rfl, .inl ⟨e, p, he, hp, ho⟩⟩
  · rw [bindingsOf_error_cons, bindingsOf_flatMap] at h
    obtain ⟨entry, hentry, h⟩ := List.mem_flatMap.1 h
    have hcontains := (entries_spec _).1 entry hentry
    refine ⟨entry, hcontains.holds hlist, hcontains.infix_text, ?_⟩
    unfold readEntry at h
    split at h
    · next outcomes hread =>
      obtain ⟨e, p, he, -, hp, ho⟩ := Object.exists_property_of_read hread h
      exact .inl ⟨e, p, he, hp, ho⟩
    · exact .inr (List.mem_singleton.1 (mem_bindingsOf.1 h)).symm

end Binding

end BoundTemplate
