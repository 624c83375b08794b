import BoundTemplate.Proofs.Binding.Layout
import BoundTemplate.Proofs.Script.Standard

/-!
# Bindings with quoted names

The name of a binding may be written between quotes, and is what stands between them. A binding
that is read as a property of an object literal starts at the opening quote. One that is saved of
an entry that is not in order starts at its name, so the opening quote is not in its range. What
is relied on of the parser is where it reports what it reads, that a string has its quotes, and
that a string does not stand for its own value.
-/

namespace BoundTemplate

namespace Binding

open Script

variable {parser : Script.Parser} {source : Source} {owner : Nat} {b : Binding}

/-! ### What a binding encloses -/

/-- The name of a binding is what stands between two quotes, and the binding reaches from an offset
at least up to the second quote. -/
structure Encloses (source : Source) (b : Binding) (quotes : Span) (start : Nat) : Prop where
  name : ∃ (quote : Char) (content : Text), (quote = '"' ∨ quote = '\'') ∧
    source.text.Holds quotes (quote :: (content ++ [quote])) ∧ b.name.text = content ∧
      b.name.range.span = ⟨quotes.start + 1, quotes.stop - 1⟩
  start : b.range.span.start = start
  stop : quotes.stop ≤ b.range.span.stop

/-- A quote is one byte. -/
theorem size_singleton_quote {quote : Char} (hquote : quote = '"' ∨ quote = '\'') :
    Text.size [quote] = 1 := by
  rcases hquote with rfl | rfl <;> rfl

/-- A binding that is made encloses the quotes around its name, but for what is in front of the
offset where it is made to start. -/
theorem encloses_of_range {quotes : Span} {quote : Char} {content : Text} {start stop : Nat}
    (hquote : quote = '"' ∨ quote = '\'')
    (h : source.text.Holds quotes (quote :: (content ++ [quote])))
    (hname : b.name = source.piece ⟨quotes.start + 1, quotes.stop - 1⟩)
    (hrange : b.range = source.range ⟨start, stop⟩) (hstart : start ≤ quotes.stop)
    (hstop : quotes.stop ≤ stop) (hsize : stop ≤ source.text.size) :
    Encloses source b quotes start := by
  have hone := size_singleton_quote hquote
  have hcontent := Text.Holds.between hone hone h
  have hspan : b.range.span = ⟨start, stop⟩ := by
    rw [hrange]
    exact Source.span_range (Nat.le_trans hstart hstop) hsize
  refine ⟨⟨quote, content, hquote, h, ?_, ?_⟩, congrArg Span.start hspan, ?_⟩
  · rw [hname]
    exact hcontent.slice_eq
  · rw [hname]
    exact Source.span_range_of_holds hcontent
  · rw [hspan]
    exact hstop

/-! ### Lists in order -/

/-- A binding that is read as a property starts at the quote in front of its name. -/
theorem Object.encloses_of_outcome {list : Excerpt} {span value : Span} {key : Outline.Key}
    {form : PropertyForm} (hlist : source.text.Holds list.span list.text)
    (hp : (Outline.Property.entry span key form value).Placed (listScript list.text)
      (listBody list.text))
    (hquoted : Quoted (listScript list.text) key.span) (hnames : form ≠ .shorthand)
    (hform : key.form = .string)
    (h : outcome source owner list.offset (.entry span key form value) = .ok b) :
    Encloses source b (unwrapSpan list.offset key.span)
      (unwrapSpan list.offset key.span).start := by
  obtain ⟨hbytes, _, -, hparam⟩ := exists_holds_value hlist hp
  obtain ⟨hspan, hkey, ⟨-, hvalueLt, -⟩, hbehind⟩ := hp
  obtain ⟨keyText, hkeyScript, hkeyList⟩ := (hkey.within hspan).exists_holds
  have hquotes := holds_unwrapSpan hlist hkeyList
  obtain ⟨quote, content, hquote, hscript⟩ := hquoted
  obtain rfl : keyText = quote :: (content ++ [quote]) :=
    hkeyScript.slice_eq.symm.trans hscript.slice_eq
  have hname : nameSpan? key.form (unwrapSpan list.offset key.span) =
      some ⟨(unwrapSpan list.offset key.span).start + 1,
        (unwrapSpan list.offset key.span).stop - 1⟩ := by
    rw [hform]
    refine if_pos ?_
    have hstop := hquotes.stop_eq
    have hpos := quote.utf8Size_pos
    simp only [Text.size_cons, Text.size_append, Text.size_nil] at hstop
    simp only [Span.size]
    omega
  unfold outcome refuse at h
  dsimp only at h
  rw [if_neg (by rw [hform]; decide), hname] at h
  cases form with
  | method | getter | setter => cases h
  | shorthand => exact absurd rfl hnames
  | value =>
    have hnonempty : (unwrapSpan list.offset value).isEmpty = false :=
      beq_eq_false_iff_ne.2 (Nat.ne_of_lt hbytes)
    rw [hnonempty] at h
    cases h
    refine encloses_of_range hquote hquotes rfl rfl hquotes.start_le_stop ?_ hparam.stop_le_size
    exact add_unwrap_le _ (Nat.le_of_lt (Nat.lt_trans (hbehind rfl) hvalueLt))

/-! ### Entries that are saved -/

namespace Salvage

variable {entry : Excerpt} {quote : Char} {content rest : Text}

theorem size_quotes (hquote : quote = '"' ∨ quote = '\'') (content : Text) :
    Text.size (quote :: (content ++ [quote])) = content.size + 2 := by
  rw [← List.singleton_append, Text.size_append, Text.size_append, size_singleton_quote hquote]
  omega

theorem text_eq_quotes_append (htext : entry.text = quote :: (content ++ quote :: rest)) :
    entry.text = (quote :: (content ++ [quote])) ++ rest := by
  rw [htext]
  simp

section

variable (hquote : quote = '"' ∨ quote = '\'')
  (htext : entry.text = quote :: (content ++ quote :: rest))
include hquote htext

/-- The name of an entry that begins with a quote reaches up to the next one of the kind. -/
theorem name_of_quoted (hcontent : quote ∉ content) :
    name entry = (⟨entry.offset + 1, content⟩, content.length + 2) := by
  have htake : (content ++ quote :: rest).takeWhile (· != quote) = content := by
    rw [List.takeWhile_append_of_pos fun c hc => bne_iff_ne.2 (ne_of_mem_of_not_mem hc hcontent)]
    simp
  have hlt : content.length < (content ++ quote :: rest).length := by
    rw [List.length_append, List.length_cons]
    omega
  obtain ⟨offset, text⟩ := entry
  cases htext
  rcases hquote with rfl | rfl
  all_goals
    simp only [name, Excerpt.drop, Excerpt.take, List.drop_succ_cons, List.drop_zero, htake,
      if_pos hlt, List.take_left]
    rfl

/-- The name of an entry that begins with a quote stands between its quotes. -/
theorem span_name_of_quoted (hcontent : quote ∉ content) :
    (name entry).1.span = ⟨entry.offset + 1, entry.offset + (content.size + 2) - 1⟩ := by
  rw [name_of_quoted hquote htext hcontent]
  simp only [Excerpt.span, Excerpt.stop, Span.mk.injEq, true_and]
  omega

/-- What is read behind the name of an entry that begins with a quote starts behind both quotes. -/
theorem offset_drop_name_of_quoted (hcontent : quote ∉ content) :
    (entry.drop (name entry).2).offset = entry.offset + (content.size + 2) := by
  have htake : entry.text.take (content.length + 2) = quote :: (content ++ [quote]) := by
    rw [text_eq_quotes_append htext]
    exact List.take_left' (by simp)
  rw [name_of_quoted hquote htext hcontent, Excerpt.drop, htake, size_quotes hquote content]

theorem holds_quotes (hentry : source.text.Holds entry.span entry.text) :
    source.text.Holds ⟨entry.offset, entry.offset + (content.size + 2)⟩
      (quote :: (content ++ [quote])) := by
  rw [text_eq_quotes_append htext] at hentry
  have hfront := hentry.split.1
  rwa [size_quotes hquote content] at hfront

/-- A binding that is saved starts behind the quote in front of its name. -/
theorem encloses_of_read (hcontent : quote ∉ content)
    (hentry : source.text.Holds entry.span entry.text)
    (placed : ∀ part, part <:+: entry.text → parser.ExpressionPlaced part)
    (h : read parser source owner entry = .ok b) :
    Encloses source b ⟨entry.offset, entry.offset + (content.size + 2)⟩ (entry.offset + 1) := by
  have hquotes := holds_quotes hquote htext hentry
  have hname := span_name_of_quoted hquote htext hcontent
  have hbehind := offset_drop_name_of_quoted hquote htext hcontent
  have hsize : entry.stop ≤ source.text.size := hentry.stop_le_size
  have hcontains := entry.contains_drop (name entry).2
  obtain ⟨place, hplace, rfl⟩ | ⟨value, span, hvalue, hspan, rfl⟩ := exists_of_read h
  · obtain ⟨hle, hstop⟩ := hplace.bounds
    have hfits := hcontains.bounds.2
    rw [hbehind] at hle
    simp only [Excerpt.stop] at hstop hfits hsize
    rw [hname]
    refine encloses_of_range hquote hquotes rfl rfl ?_ (Nat.le_trans hle (Nat.le_max_left _ _)) ?_
    · dsimp only
      omega
    · dsimp only
      omega
  · obtain ⟨-, hspanStop⟩ := bounds_of_expressionSpan?
      (fun part hpart => placed part (hpart.trans (hcontains.trans hvalue).infix_text)) hspan
    obtain ⟨hle, hstop⟩ := hvalue.bounds
    have hfits := hcontains.bounds.2
    rw [hbehind] at hle
    simp only [Excerpt.stop] at hstop hfits hsize
    have hstart : (name entry).1.offset = entry.offset + 1 := congrArg Span.start hname
    rw [hname, hstart]
    refine encloses_of_range hquote hquotes rfl rfl ?_ ?_ ?_
    · dsimp only
      omega
    · simp only [Span.stop_shift]
      omega
    · simp only [Span.stop_shift]
      omega

end

end Salvage

/-! ### Lists -/

/-- A binding is a property of a part that is read as an object literal. If the key of the property
is a string, the binding encloses it with both quotes. -/
def IsProperty (parser : Script.Parser) (source : Source) (owner : Nat) (part : Excerpt)
    (b : Binding) : Prop :=
  ∃ ps, Object.properties parser part.text = .ok ps ∧ ∃ p ∈ ps,
    Object.outcome source owner part.offset p = .ok b ∧
      ∀ span key form value, p = .entry span key form value → key.form = .string →
        let quotes := Object.unwrapSpan part.offset key.span
        Encloses source b quotes quotes.start

/-- A binding is saved of a part that is no object literal. If the part begins with a string, the
binding encloses it without the first quote. -/
def IsSaved (parser : Script.Parser) (source : Source) (owner : Nat) (part : Excerpt)
    (b : Binding) : Prop :=
  (∃ failure, Object.properties parser part.text = .error failure) ∧
    Salvage.read parser source owner part = .ok b ∧
      ∀ (quote : Char) (content rest : Text), (quote = '"' ∨ quote = '\'') → quote ∉ content →
        part.text = quote :: (content ++ quote :: rest) →
          let quotes : Span := ⟨part.offset, part.offset + (content.size + 2)⟩
          Encloses source b quotes (quotes.start + 1)

section

variable {part : Excerpt} (hpart : source.text.Holds part.span part.text)
  (quotes : parser.QuotesKeys) (names : parser.NamesShorthands)
include hpart quotes names

theorem isProperty_of_read (placed : parser.ListPlaced part.text) {outcomes : List Outcome}
    (h : Object.read parser source owner part = .ok outcomes) :
    ∀ b ∈ bindingsOf outcomes, IsProperty parser source owner part b := by
  intro b hb
  obtain ⟨e, p, he, hps, hp, ho⟩ := Object.exists_property_of_read h hb
  refine ⟨_, hps, p, hp, ho, ?_⟩
  rintro span key form value rfl hform
  refine Object.encloses_of_outcome hpart ((placed e he).1 _ hp)
    (quotes _ e he _ _ _ _ hp hform) ?_ hform ho
  rintro rfl
  exact names _ e he _ _ _ hp hform

theorem isProperty_or_isSaved_of_readEntry (placed : parser.Placed part.text) :
    ∀ b ∈ bindingsOf (readEntry parser source owner part),
      IsProperty parser source owner part b ∨ IsSaved parser source owner part b := by
  unfold readEntry
  split
  · next outcomes h =>
    exact fun b hb =>
      .inl (isProperty_of_read hpart quotes names (placed _ List.infix_rfl).1 h b hb)
  · next failure h =>
    intro b hb
    have hread := (List.mem_singleton.1 (mem_bindingsOf.1 hb)).symm
    refine .inr ⟨⟨failure, Object.properties_of_read_eq_error h⟩, hread, ?_⟩
    intro quote content rest hquote hcontent htext
    exact Salvage.encloses_of_read hquote htext hcontent hpart
      (fun part' hpart' => (placed part' hpart').2) hread

end

/-- Every binding of a list is a property of an object literal, and then encloses the quotes around
its name, or is saved, and then starts behind the first of them. What is relied on is where the
parser reports what it reads of parts of the list, and how it reads strings that are keys. -/
theorem extent_of_quoted_name (parser : Script.Parser) (source : Source) (owner : Nat) (body : Span)
    (placed : parser.Placed (source.text.slice body)) (quotes : parser.QuotesKeys)
    (names : parser.NamesShorthands) :
    let list := source.excerpt body
    ∀ b ∈ bindingsOf (readList parser source owner body), IsProperty parser source owner list b ∨
      (∃ failure, Object.properties parser list.text = .error failure) ∧
        ∃ part ∈ entries list,
          IsProperty parser source owner part b ∨ IsSaved parser source owner part b := by
  intro list b hb
  unfold readList at hb
  dsimp only at hb
  split at hb
  · cases hb
  next hblank =>
  have hlist : source.text.Holds list.span list.text := (holds_of_not_blank hblank).excerpt
  split at hb
  · next outcomes hread =>
    exact .inl (isProperty_of_read hlist quotes names (placed _ List.infix_rfl).1 hread b hb)
  · next failure hread =>
    rw [bindingsOf_error_cons, bindingsOf_flatMap] at hb
    obtain ⟨entry, hentry, hb⟩ := List.mem_flatMap.1 hb
    have hcontains := (entries_spec _).1 entry hentry
    exact .inr ⟨⟨failure, Object.properties_of_read_eq_error hread⟩, entry, hentry,
      isProperty_or_isSaved_of_readEntry (hcontains.holds hlist) quotes names
        (placed.part hcontains.infix_text) b hb⟩

/-- An entry that is not in order stands beside one that is: only the binding of the second one
starts at a quote. -/
theorem extent_of_quoted_name_beside :
    let parser := Script.Parser.standard
    let source := Source.ofText "'a','b':1".toList
    let list := source.excerpt ⟨0, 9⟩
    let bindings := bindingsOf (readList parser source 0 ⟨0, 9⟩)
    parser.Placed list.text ∧
      bindings.map (fun b => (b.name.text, b.name.range.span, b.range.span)) =
        [(['a'], ⟨1, 2⟩, ⟨1, 3⟩), (['b'], ⟨5, 6⟩, ⟨4, 9⟩)] ∧
      ∀ b ∈ bindings, IsProperty parser source 0 list b ∨
        (∃ failure, Object.properties parser list.text = .error failure) ∧
          ∃ part ∈ entries list,
            IsProperty parser source 0 part b ∨ IsSaved parser source 0 part b := by
  intro parser source list bindings
  have placed : parser.Placed list.text := by decide +kernel
  exact ⟨placed, by decide +kernel, extent_of_quoted_name parser source 0 ⟨0, 9⟩ placed
    Script.Parser.quotesKeys_standard Script.Parser.namesShorthands_standard⟩

/-- Of two entries that are not in order, one has a value and the other has none. Both bindings
start at their names, behind the quotes that stand in front. -/
theorem starts_behind_quote_of_saved :
    let list : Text := "'a': x), 'b': ".toList
    (bindingsOf (readList .standard (.ofText list) 0 ⟨0, list.size⟩)).map
        (fun b => (b.name.text, b.name.range.span, b.range.span, b.incomplete)) =
      [(['a'], ⟨1, 2⟩, ⟨1, 6⟩, false), (['b'], ⟨10, 11⟩, ⟨10, 13⟩, true)] ∧
      list.Holds ⟨0, 3⟩ "'a'".toList ∧ list.Holds ⟨9, 12⟩ "'b'".toList := by
  intro list
  refine ⟨by decide +kernel, ⟨[], ": x), 'b': ".toList, rfl, rfl⟩,
    ⟨"'a': x), ".toList, ": ".toList, rfl, rfl⟩⟩

end Binding

end BoundTemplate
