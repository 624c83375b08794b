import BoundTemplate.Proofs.Binding.Splitting
import BoundTemplate.Proofs.Binding.Verbatim
import BoundTemplate.Proofs.Script.Standard

/-!
# What a list keeps of entries beside one that is not in order

The cut at commas reads pieces that are joined by commas back, if it sees each of them as
one entry and nothing open behind it. What such an entry gives on its own it also gives in
a list that is not in order, only further on. What is relied on of the parser is that a string has
its quotes and that there are no properties where there is no text.
-/

namespace BoundTemplate

/-! ### The cut at commas -/

namespace Binding

/-- A text is seen as one entry: no comma in it separates, and nothing is open behind it. -/
def IsEntry (t : Text) : Prop := pieces .none t = [t] ∧ Nesting.none.after t = .none

instance (t : Text) : Decidable (IsEntry t) := inferInstanceAs (Decidable (_ ∧ _))

/-- Entries joined by commas are the pieces of what they make. -/
theorem pieces_intercalate {parts : List Text} (hne : parts ≠ [])
    (h : ∀ part ∈ parts, IsEntry part) : pieces .none ([','].intercalate parts) = parts := by
  induction parts with
  | nil => exact absurd rfl hne
  | cons part parts ih =>
    obtain ⟨hpiece, hafter⟩ := h part List.mem_cons_self
    cases parts with
    | nil =>
      have hjoined : [','].intercalate [part] = part := by simp [List.intercalate]
      rw [hjoined]
      exact hpiece
    | cons next parts =>
      rw [List.intercalate_cons_cons, List.append_assoc, List.singleton_append,
        pieces_append_comma hafter, hpiece,
        ih (List.cons_ne_nil _ _) fun part hpart => h part (List.mem_cons_of_mem _ hpart)]
      rfl

/-- Every entry that is not blank is among the entries of the list that they make. -/
theorem trim_mem_entries {offset : Nat} {parts : List Text} {e : Excerpt}
    (h : ∀ part ∈ parts, IsEntry part) (he : e ∈ place offset parts) (hne : e.trim.text ≠ []) :
    e.trim ∈ entries ⟨offset, [','].intercalate parts⟩ := by
  have hparts : parts ≠ [] := by
    rintro rfl
    cases he
  rw [entries, pieces_intercalate hparts h]
  refine List.mem_filter.2 ⟨List.mem_map_of_mem he, ?_⟩
  rw [Bool.not_eq_true', List.isEmpty_eq_false_iff]
  exact hne

end Binding

/-! ### The same text further on -/

theorem Span.isEmpty_shift (s : Span) (delta : Nat) : (s.shift delta).isEmpty = s.isEmpty := by
  simp only [isEmpty, shift, Bool.beq_eq_decide_eq, Nat.add_right_cancel_iff]

namespace Source

variable {source : Source} {t part : Text} {s : Span} {offset : Nat}

/-- A range whose ends lie in the text has their offsets. -/
theorem span_range_of_le (hstart : s.start ≤ source.text.size) (hstop : s.stop ≤ source.text.size) :
    (source.range s).span = s := by
  have hmin : min s.start source.text.size = s.start := Nat.min_eq_left hstart
  have hmin' : min s.stop source.text.size = s.stop := Nat.min_eq_left hstop
  simp only [range, position, Range.span, LineTable.position, hmin, hmin']

end Source

namespace Binding

/-- A binding as another one, with everything located further on. -/
structure Shifted (delta : Nat) (b b' : Binding) : Prop where
  name_text : b'.name.text = b.name.text
  name_span : b'.name.range.span = b.name.range.span.shift delta
  param_text : b'.param.text = b.param.text
  param_span : b'.param.range.span = b.param.range.span.shift delta
  span : b'.range.span = b.range.span.shift delta
  incomplete : b'.incomplete = b.incomplete
  owner : b'.owner = b.owner

variable {source : Source} {e : Excerpt} {owner : Nat}

section

variable {name param : Span} {b : Binding} (hsource : source.text.Holds e.span e.text)
include hsource

/-- An offset of an excerpt lies in the text. -/
theorem add_offset_le {n : Nat} (h : n ≤ e.text.size) : n + e.offset ≤ source.text.size := by
  have hstop := hsource.stop_le_size
  simp only [Excerpt.span, Excerpt.stop] at hstop
  omega

/-- The range of places in an excerpt moves with it. -/
theorem span_range_shift {s : Span} (hstart : s.start ≤ e.text.size)
    (hstop : s.stop ≤ e.text.size) :
    (source.range (s.shift e.offset)).span =
      ((Source.ofText e.text).range s).span.shift e.offset := by
  have hown : ((Source.ofText e.text).range s).span = s := Source.span_range_of_le hstart hstop
  rw [hown]
  exact Source.span_range_of_le (add_offset_le hsource hstart) (add_offset_le hsource hstop)

/-- A piece of an excerpt stands in the text further on. -/
theorem piece_shift {s : Span} {part : Text} (h : e.text.Holds s part) :
    source.text.Holds (s.shift e.offset) part ∧ (source.piece (s.shift e.offset)).text = part ∧
      (source.piece (s.shift e.offset)).range.span =
        ((Source.ofText e.text).range s).span.shift e.offset := by
  have holds := hsource.trans h
  exact ⟨holds, holds.slice_eq, span_range_shift hsource
    (Nat.le_trans h.start_le_stop h.stop_le_size) h.stop_le_size⟩

/-- A binding with its parameter is the same further on. -/
theorem complete_shift {start : Nat} (hstart : start ≤ e.text.size)
    (h : complete? (.ofText e.text) owner name start param = some b) :
    Shifted e.offset b
        (complete source owner (name.shift e.offset) (start + e.offset) (param.shift e.offset)) ∧
      (complete source owner (name.shift e.offset) (start + e.offset)
        (param.shift e.offset)).Verbatim source := by
  obtain ⟨namePiece, hname, h⟩ := Option.bind_eq_some_iff.1 h
  obtain ⟨paramPiece, hparam, h⟩ := Option.bind_eq_some_iff.1 h
  obtain ⟨nameText, hnameText, hname⟩ := Option.bind_eq_some_iff.1 hname
  obtain ⟨paramText, hparamText, hparam⟩ := Option.bind_eq_some_iff.1 hparam
  cases h
  cases hname
  cases hparam
  have hnameHolds : e.text.Holds name nameText := Text.part?_eq_some_iff.1 hnameText
  have hparamHolds : e.text.Holds param paramText := Text.part?_eq_some_iff.1 hparamText
  obtain ⟨hnameSource, hnameSlice, hnameSpan⟩ := piece_shift hsource hnameHolds
  obtain ⟨hparamSource, hparamSlice, hparamSpan⟩ := piece_shift hsource hparamHolds
  refine ⟨⟨hnameSlice, hnameSpan, hparamSlice, hparamSpan, ?_, rfl, rfl⟩,
    verbatim_complete owner _ hnameSource hparamSource⟩
  exact span_range_shift (s := ⟨start, param.stop⟩) hsource hstart hparamHolds.stop_le_size

/-- A binding without a parameter is the same further on. -/
theorem lacking_shift {place : Nat} (hplace : e.text.isBoundary place = true)
    (h : lacking? (.ofText e.text) owner name place = some b) :
    Shifted e.offset b (lacking source owner (name.shift e.offset) (place + e.offset)) ∧
      (lacking source owner (name.shift e.offset) (place + e.offset)).Verbatim source := by
  obtain ⟨namePiece, hname, h⟩ := Option.bind_eq_some_iff.1 h
  obtain ⟨nameText, hnameText, hname⟩ := Option.bind_eq_some_iff.1 hname
  cases h
  cases hname
  have hnameHolds : e.text.Holds name nameText := Text.part?_eq_some_iff.1 hnameText
  obtain ⟨hnameSource, hnameSlice, hnameSpan⟩ := piece_shift hsource hnameHolds
  have hle := Text.le_size_of_isBoundary hplace
  have hboundary : source.text.isBoundary (place + e.offset) = true := by
    rw [Nat.add_comm]
    exact hsource.isBoundary_add hplace
  have hstop : max place name.stop ≤ e.text.size := Nat.max_le.2 ⟨hle, hnameHolds.stop_le_size⟩
  refine ⟨⟨hnameSlice, hnameSpan, rfl, ?_, ?_, rfl, rfl⟩,
    verbatim_lacking owner hnameSource hboundary⟩
  · exact span_range_shift (s := ⟨place, place⟩) hsource hle hle
  · have hrange := span_range_shift (s := ⟨name.start, max place name.stop⟩) hsource
      (Nat.le_trans hnameHolds.start_le_stop hnameHolds.stop_le_size) hstop
    have hspan : (⟨name.start, max place name.stop⟩ : Span).shift e.offset =
        ⟨(name.shift e.offset).start, max (place + e.offset) (name.shift e.offset).stop⟩ := by
      simp only [Span.shift, Nat.add_max_add_right]
    rw [hspan] at hrange
    exact hrange

end

end Binding

/-- A quoted part of the script of a list ends in the list: what closes the list is no quote. -/
theorem Script.Quoted.stop_le {list : Text} {span : Span} (h : Quoted (listScript list) span) :
    span.stop ≤ Binding.Object.opening.size + list.size := by
  obtain ⟨quote, content, hquote, front, back, hscript, rfl⟩ := h
  have hsize := congrArg Text.size hscript
  simp only [Text.size_append] at hsize
  have hclosing : Text.size Binding.Object.closing = 2 := rfl
  have hne : quote ≠ '}' ∧ quote ≠ ')' := by
    rcases hquote with rfl | rfl <;> decide
  have hback : 2 ≤ Text.size back := by
    rcases back with _ | ⟨x, _ | ⟨y, back⟩⟩
    · -- The last character would be the quote.
      have hlast := congrArg List.getLast? hscript
      simp [Binding.Object.closing, List.getLast?_append, List.getLast?_cons] at hlast
      exact absurd hlast.symm hne.2
    · have hlast := congrArg (fun t => t.dropLast.getLast?) hscript
      have hfront : front ++ quote :: (content ++ [quote]) ++ [x] =
          (front ++ quote :: content ++ [quote]) ++ [x] := by simp
      have hlist : listScript list = (Binding.Object.opening ++ list ++ ['}']) ++ [')'] := by
        simp [listScript, Binding.Object.closing]
      rw [hfront, hlist, List.dropLast_concat, List.dropLast_concat, List.getLast?_concat,
        List.getLast?_concat] at hlast
      exact absurd (Option.some.inj hlast).symm hne.1
    · have hx := x.utf8Size_pos
      have hy := y.utf8Size_pos
      simp only [Text.size_cons]
      omega
  dsimp only
  omega

namespace Binding

variable {parser : Script.Parser} {source : Source} {e : Excerpt} {owner : Nat} {b : Binding}

/-- The name that a key gives moves with the key, and starts in it. -/
theorem Object.nameSpan?_shift {form : Script.KeyForm} {key name : Span} (delta : Nat)
    (h : nameSpan? form key = some name) :
    nameSpan? form (key.shift delta) = some (name.shift delta) ∧ key.start ≤ name.start := by
  cases form with
  | name | number =>
    cases h
    exact ⟨rfl, Nat.le_refl _⟩
  | string =>
    unfold nameSpan? at h ⊢
    dsimp only at h ⊢
    split at h
    · next hsize =>
      cases h
      rw [Span.size_shift, if_pos hsize]
      simp only [Span.size] at hsize
      simp only [Span.shift, Option.some.injEq, Span.mk.injEq]
      omega
    · cases h
  | bigNumber | privateName | computed => cases h

/-- A key that gives a name of a list ends between two characters of the list. -/
theorem Object.isBoundary_stop_key {list nameText : Text} {key : Script.Outline.Key} {name : Span}
    (quoted : key.form = .string → Script.Quoted (Script.listScript list) key.span)
    (h : nameSpan? key.form (unwrapSpan 0 key.span) = some name)
    (hname : list.Holds name nameText) :
    list.isBoundary (unwrapSpan 0 key.span).stop = true := by
  rcases hform : key.form with _ | _ | _ | _ | _ | _
  case string =>
    have hquoted := quoted hform
    obtain ⟨quote, content, hone, hscript⟩ := hquoted.exists_holds
    have hstop := hscript.stop_eq
    have hopening : opening.size = 2 := rfl
    simp only [Text.size_cons, Text.size_append, Text.size_nil] at hstop
    rw [unwrapSpan, Nat.zero_add, Nat.zero_add]
    exact isBoundary_unwrap hscript.isBoundary_stop (by omega) hquoted.stop_le
  all_goals
    rw [hform] at h
    cases h
  all_goals exact hname.isBoundary_stop

/-- What a property gives of a list is the same where the list stands further on. -/
theorem Object.outcome_shift {p : Script.Outline.Property}
    (hsource : source.text.Holds e.span e.text)
    (quotes : ∀ span key form value, p = .entry span key form value → key.form = .string →
      Script.Quoted (Script.listScript e.text) key.span)
    (h : outcome? (.ofText e.text) owner 0 p = some (.ok b)) :
    ∃ b', outcome source owner e.offset p = .ok b' ∧ Shifted e.offset b b' ∧
      b'.Verbatim source := by
  cases p with
  | spread span => cases h
  | entry span key form value =>
    have hmoved : ∀ span, unwrapSpan e.offset span = (unwrapSpan 0 span).shift e.offset := by
      intro span
      simp only [unwrapSpan, Span.shift, Nat.zero_add, Nat.add_comm]
    unfold outcome? at h
    unfold outcome
    dsimp only at h ⊢
    simp only [hmoved, Span.isEmpty_shift]
    split at h
    · cases h
    · next hcomputed =>
      rw [if_neg hcomputed]
      cases form with
      | method | getter | setter => cases h
      | value | shorthand =>
        dsimp only at h ⊢
        split at h
        · cases h
        · next name hname =>
          obtain ⟨hnameShift, hle⟩ := nameSpan?_shift e.offset hname
          rw [hnameShift]
          dsimp only
          split at h
          · next hlacking =>
            rw [if_pos hlacking]
            obtain ⟨b', hb, h⟩ := Option.bind_eq_some_iff.1 h
            cases h
            obtain ⟨piece, hpiece, -⟩ := Option.bind_eq_some_iff.1 hb
            obtain ⟨nameText, hpart, -⟩ := Option.bind_eq_some_iff.1 hpiece
            have hplace := isBoundary_stop_key (quotes _ _ _ _ rfl) hname
              (Text.part?_eq_some_iff.1 hpart)
            exact ⟨_, rfl, lacking_shift hsource hplace hb⟩
          · next hcomplete =>
            rw [if_neg hcomplete]
            obtain ⟨b', hb, h⟩ := Option.bind_eq_some_iff.1 h
            cases h
            obtain ⟨piece, hpiece, -⟩ := Option.bind_eq_some_iff.1 hb
            obtain ⟨nameText, hpart, -⟩ := Option.bind_eq_some_iff.1 hpiece
            have hin : e.text.Holds name nameText := Text.part?_eq_some_iff.1 hpart
            have hstart := Nat.le_trans hle (Nat.le_trans hin.start_le_stop hin.stop_le_size)
            exact ⟨_, rfl, complete_shift hsource hstart hb⟩

/-- A text that gives one binding on its own gives the same one where it stands further on. -/
theorem Object.read_shift (quotes : parser.QuotesKeys) (hsource : source.text.Holds e.span e.text)
    (h : read? parser (.ofText e.text) owner ⟨0, e.text⟩ = some (.ok [.ok b])) :
    ∃ b', read parser source owner e = .ok [.ok b'] ∧ Shifted e.offset b b' ∧
      b'.Verbatim source := by
  unfold read? at h
  unfold read
  dsimp only at h
  cases hproperties : properties parser e.text with
  | error failure =>
    rw [hproperties] at h
    cases h
  | ok ps =>
    rw [hproperties] at h
    obtain ⟨outcomes, houtcomes, h⟩ := Option.bind_eq_some_iff.1 h
    cases h
    cases ps with
    | nil => cases houtcomes
    | cons p ps =>
      rw [List.mapM_cons] at houtcomes
      obtain ⟨first, hfirst, houtcomes⟩ := Option.bind_eq_some_iff.1 houtcomes
      obtain ⟨others, hothers, houtcomes⟩ := Option.bind_eq_some_iff.1 houtcomes
      cases houtcomes
      have hps : ps = [] := by
        cases ps with
        | nil => rfl
        | cons q ps =>
          rw [List.mapM_cons] at hothers
          obtain ⟨second, -, hothers⟩ := Option.bind_eq_some_iff.1 hothers
          obtain ⟨more, -, hothers⟩ := Option.bind_eq_some_iff.1 hothers
          cases hothers
      subst hps
      obtain ⟨o, -, ho, -, hlisted⟩ := exists_of_properties hproperties
      have hquotes : ∀ span key form value, p = .entry span key form value →
          key.form = .string → Script.Quoted (Script.listScript e.text) key.span := by
        rintro span key form value rfl
        exact quotes e.text o ho span key form value (hlisted ▸ List.mem_singleton_self _)
      obtain ⟨b', hb, hshifted, hverbatim⟩ := outcome_shift hsource hquotes hfirst
      refine ⟨b', ?_, hshifted, hverbatim⟩
      show Except.ok [outcome source owner e.offset p] = _
      rw [hb]

/-! ### Lists that are not in order -/

/-- What gives a binding on its own has characters. -/
theorem Object.ne_nil_of_read? {t : Text} (nothing : parser.ReadsNothing)
    (h : read? parser (.ofText t) owner ⟨0, t⟩ = some (.ok [.ok b])) : t ≠ [] := by
  rintro rfl
  unfold read? at h
  dsimp only at h
  cases hproperties : properties parser [] with
  | error failure =>
    rw [hproperties] at h
    cases h
  | ok ps =>
    obtain ⟨e, -, he, -, rfl⟩ := exists_of_properties hproperties
    rw [hproperties, nothing e he] at h
    cases h

/-- In a list of entries joined by commas that is not in order as a whole, every entry that gives
one binding on its own, and is in order there, gives the same binding where it stands, whatever is
wrong with the others. What is asked of all entries is that the cut at commas sees each as one and
nothing open behind it. -/
theorem mem_readList_of_entry (quotes : parser.QuotesKeys) (nothing : parser.ReadsNothing)
    {body : Span} {parts : List Text} {failure : Object.Failure} {part : Excerpt}
    (hbody : source.text.Holds body ([','].intercalate parts))
    (hentries : ∀ t ∈ parts, IsEntry t)
    (hfails : Object.read parser source owner ⟨body.start, [','].intercalate parts⟩ =
      .error failure)
    (hpart : part ∈ place body.start parts)
    (halone : Object.read? parser (.ofText part.trim.text) owner ⟨0, part.trim.text⟩ =
      some (.ok [.ok b])) :
    ∃ b' ∈ bindingsOf (readList parser source owner body),
      Shifted part.trim.offset b b' ∧ b'.Verbatim source := by
  have hne := Object.ne_nil_of_read? nothing halone
  have hmem := trim_mem_entries hentries hpart hne
  have hcontains := (entries_spec ⟨body.start, [','].intercalate parts⟩).1 _ hmem
  have hsource := hcontains.holds hbody.excerpt
  obtain ⟨b', hread, hshifted, hverbatim⟩ := Object.read_shift quotes hsource halone
  refine ⟨b', ?_, hshifted, hverbatim⟩
  have hblank : ¬List.isEmpty (Text.trim ([','].intercalate parts)) = true := by
    intro hempty
    have hlist := Text.blank_of_trim_eq_nil (List.isEmpty_iff.1 hempty)
    have hsolid : Text.StartsSolid part.trim.text := by
      rw [Excerpt.trim, Excerpt.trimEnd, Excerpt.text_trimStart]
      exact (Text.startsSolid_trimStart part.text).trimEnd
    exact hne (Text.Blank.eq_nil (fun c hc => hlist c (hcontains.infix_text.subset hc)) hsolid)
  rw [mem_bindingsOf, readList, Source.excerpt_eq hbody]
  dsimp only
  rw [if_neg hblank, hfails]
  refine List.mem_cons_of_mem _ (List.mem_flatMap.2 ⟨part.trim, hmem, ?_⟩)
  rw [readEntry, hread]
  exact List.mem_singleton_self _

/-- Behind an entry whose value is missing, the next one gives the binding that it gives on its
own, six bytes further on. -/
theorem mem_readList_of_entry_behind :
    let parser := Script.Parser.standard
    ∃ b, Object.read? parser (.ofText "c: 2".toList) 0 ⟨0, "c: 2".toList⟩ = some (.ok [.ok b]) ∧
      ∃ b' ∈ bindingsOf (readList parser (.ofText "b: +, c: 2".toList) 0 ⟨0, 10⟩),
        Shifted 6 b b' ∧ b'.Verbatim (.ofText "b: +, c: 2".toList) := by
  intro parser
  have hfails : (Object.read parser (.ofText "b: +, c: 2".toList) 0
      ⟨0, "b: +, c: 2".toList⟩).toBool = false := by decide +kernel
  have hone : (Object.read? parser (.ofText "c: 2".toList) 0 ⟨0, "c: 2".toList⟩).map
      (fun outcomes => outcomes.toOption.map (List.map Except.toBool)) = some (some [true]) := by
    decide +kernel
  rcases halone : Object.read? parser (.ofText "c: 2".toList) 0 ⟨0, "c: 2".toList⟩ with
    _ | _ | _ | ⟨_ | b, _ | ⟨_, _⟩⟩ <;> rw [halone] at hone
  case some.ok.cons.ok.nil =>
    refine ⟨b, rfl, ?_⟩
    cases hread : Object.read parser (.ofText "b: +, c: 2".toList) 0
        ⟨0, "b: +, c: 2".toList⟩ with
    | ok outcomes =>
      rw [hread] at hfails
      cases hfails
    | error failure =>
      exact @mem_readList_of_entry parser (.ofText "b: +, c: 2".toList) 0 b
        Script.Parser.quotesKeys_standard Script.Parser.readsNothing_standard ⟨0, 10⟩
        ["b: +".toList, " c: 2".toList] failure ⟨5, " c: 2".toList⟩
        ⟨[], [], by decide, by decide⟩ (by decide) hread (by decide) halone
  all_goals cases hone

/-- A quote inside of a pattern is a quote to the cut at commas, which then finds a single entry.
Of three entries, of which only the second is not in order, the last is not read at all, and the
first takes the second for a part of its parameter. -/
theorem not_mem_readList_of_pattern :
    let alone := fun t : Text =>
      (Object.read .standard (.ofText t) 0 ⟨0, t⟩).toOption.map fun outcomes =>
        outcomes.map fun outcome => outcome.toOption.map fun b => (b.name.text, b.param.text)
    let list : Text := "a: /'/,b: ,c: 1".toList
    alone "a: /'/".toList = some [some (['a'], "/'/".toList)] ∧
      alone "b: ".toList = none ∧ IsEntry "b: ".toList ∧
      alone "c: 1".toList = some [some (['c'], ['1'])] ∧
      (bindingsOf (readList .standard (.ofText list) 0 ⟨0, list.size⟩)).map
        (fun b => (b.name.text, b.param.text)) = [(['a'], "/'/,b".toList)] := by
  decide +kernel

end Binding

end BoundTemplate
