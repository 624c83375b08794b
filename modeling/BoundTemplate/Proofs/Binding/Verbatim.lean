import BoundTemplate.Proofs.Binding.List
import BoundTemplate.Proofs.Text.Slice

/-!
# Bindings word for word

What is relied on of the parser is only that the spans it reports lie in what is read and
end between its characters, and that a string has its quotes. Then a binding list can be read
with slices that may fail, and none does; and the name and the parameter of every binding stand
in the text where the binding says.
-/

namespace BoundTemplate

/-- What is given for every item of a list is given for the list. -/
theorem mapM_eq_some_map {α β : Type} {f? : α → Option β} {f : α → β} {items : List α}
    (h : ∀ a ∈ items, f? a = some (f a)) : items.mapM f? = some (items.map f) := by
  induction items with
  | nil => rfl
  | cons a items ih =>
    rw [List.mapM_cons, h a List.mem_cons_self, ih fun b hb => h b (List.mem_cons_of_mem _ hb)]
    rfl

namespace Script

variable {script : Text}

/-- What stands where a script is quoted begins and ends with the same character of one byte. -/
theorem Quoted.exists_holds {span : Span} (h : Quoted script span) :
    ∃ quote content, quote.utf8Size = 1 ∧ script.Holds span (quote :: (content ++ [quote])) := by
  obtain ⟨quote, content, rfl | rfl, hscript⟩ := h
  · exact ⟨_, content, rfl, hscript⟩
  · exact ⟨_, content, rfl, hscript⟩

/-- What stands at a span of the script of a list that is in the list. -/
theorem Within.exists_holds {list : Text} {span : Span}
    (h : Within (listScript list) (listBody list) span) :
    ∃ part, Text.Holds (listScript list) span part ∧
      list.Holds (Binding.Object.unwrapSpan 0 span) part := by
  obtain ⟨hstart, hle, hstop, hstarts, hstops⟩ := h
  have ha := Binding.Object.isBoundary_unwrap hstarts hstart (Nat.le_trans hle hstop)
  have hz := Binding.Object.isBoundary_unwrap hstops (Nat.le_trans hstart hle) hstop
  have hunwrap : Binding.Object.unwrap span.start ≤ Binding.Object.unwrap span.stop :=
    Nat.sub_le_sub_right hle _
  obtain ⟨part, hpart⟩ := Text.exists_holds ha hz hunwrap
  have hlist : Text.Holds (listScript list) (listBody list) list :=
    ⟨Binding.Object.opening, Binding.Object.closing, rfl, rfl⟩
  have hscript := hlist.trans hpart
  have hspan : Span.shift ⟨Binding.Object.unwrap span.start, Binding.Object.unwrap span.stop⟩
      (listBody list).start = span := by
    simp only [Span.shift, listBody, Binding.Object.unwrap] at hstart ⊢
    rw [Nat.sub_add_cancel hstart, Nat.sub_add_cancel (Nat.le_trans hstart hle)]
  rw [hspan] at hscript
  refine ⟨part, hscript, ?_⟩
  simpa only [Binding.Object.unwrapSpan, Nat.zero_add] using hpart

end Script

namespace Binding

variable {source : Source} {parser : Script.Parser}

/-! ### Reading with slices that may fail -/

/-- A binding with its parameter, if its name and its parameter are in the text. -/
def complete? (source : Source) (owner : Nat) (name : Span) (start : Nat) (param : Span) :
    Option Binding := do
  return {
    range := source.range ⟨start, param.stop⟩
    name := ← source.piece? name
    param := ← source.piece? param
    incomplete := false
    owner := owner }

/-- A binding without a parameter, if its name is in the text. -/
def lacking? (source : Source) (owner : Nat) (name : Span) (place : Nat) : Option Binding := do
  return {
    range := source.range ⟨name.start, max place name.stop⟩
    name := ← source.piece? name
    param := ⟨[], Range.empty (source.position place)⟩
    incomplete := true
    owner := owner }

namespace Object

/-- What an entry of an object literal gives, if its parts are in the text. -/
def outcome? (source : Source) (owner base : Nat) : Script.Outline.Property → Option Outcome
  | .spread span => return refuse source .spreadBinding (unwrapSpan base span)
  | .entry span key form value => do
    let keySpan := unwrapSpan base key.span
    if key.form = .computed then return refuse source .computedBindingName keySpan
    else
      match form with
      | .method | .getter | .setter =>
        return refuse source .unsupportedBinding (unwrapSpan base span)
      | _ =>
        match nameSpan? key.form keySpan with
        | none => return refuse source .unsupportedBindingName keySpan
        | some name =>
          let param := unwrapSpan base value
          return .ok (← if form = .shorthand || param.isEmpty then
              lacking? source owner name keySpan.stop
            else complete? source owner name keySpan.start param)

/-- What the entries of a list give, if the list is in order, and if their parts are in the text. -/
def read? (parser : Script.Parser) (source : Source) (owner : Nat) (list : Excerpt) :
    Option (Except Failure (List Outcome)) :=
  match properties parser list.text with
  | .error failure => return .error failure
  | .ok ps => return .ok (← ps.mapM (outcome? source owner list.offset))

end Object

/-- What is left of an entry that is not in order, if its parts are in the text. -/
def Salvage.read? (parser : Script.Parser) (source : Source) (owner : Nat) (entry : Excerpt) :
    Option Outcome := do
  if "...".toList.isPrefixOf entry.text then return refuse source .spreadBinding entry.span
  else if entry.text.head? = some '[' then
    return refuse source .computedBindingName entry.span
  else
    let (name, n) := name entry
    if n = 0 then return refuse source .unsupportedBindingName entry.span
    else
      let behind := entry.drop n
      let rest := behind.trimStart
      if rest.text.head? = some ':' then
        let value := (rest.drop 1).trim
        match expressionSpan? parser value.text with
        | some span =>
          return .ok (← complete? source owner name.span name.offset (span.shift value.offset))
        | none => return .ok (← lacking? source owner name.span (rest.drop 1).offset)
      else return .ok (← lacking? source owner name.span behind.offset)

/-- What an entry gives that is read on its own, if its parts are in the text. -/
def readAlone? (parser : Script.Parser) (source : Source) (owner : Nat) (entry : Excerpt) :
    Option (List Outcome) := do
  match ← Object.read? parser source owner entry with
  | .ok outcomes => return outcomes
  | .error _ => return [← Salvage.read? parser source owner entry]

/-- What a binding list gives, if it and its parts are in the text. -/
def readList? (parser : Script.Parser) (source : Source) (owner : Nat) (body : Span) :
    Option (List Outcome) := do
  let list ← source.excerpt? body
  if list.text.trim.isEmpty then return []
  else
    match ← Object.read? parser source owner list with
    | .ok outcomes => return outcomes
    | .error failure =>
      return .error (failure.locate source body list.text) ::
        (← (entries list).mapM (readAlone? parser source owner)).flatten

/-! ### The parts of a binding -/

/-- The name and the parameter of a binding stand where the binding says. -/
structure Verbatim (source : Source) (b : Binding) : Prop where
  name : source.Has b.name
  param : source.Has b.param
  range : source.Locates b.range

section

variable {name param : Span} {nameText paramText : Text} {start place : Nat} (owner : Nat)

theorem complete?_eq_some (hname : source.text.Holds name nameText)
    (hparam : source.text.Holds param paramText) :
    complete? source owner name start param = some (complete source owner name start param) := by
  rw [complete?, Source.piece?_eq_some hname, Source.piece?_eq_some hparam]
  rfl

theorem verbatim_complete (start : Nat) (hname : source.text.Holds name nameText)
    (hparam : source.text.Holds param paramText) :
    (complete source owner name start param).Verbatim source :=
  ⟨Source.has_piece hname, Source.has_piece hparam, source.locates_range _⟩

theorem lacking?_eq_some (hname : source.text.Holds name nameText) :
    lacking? source owner name place = some (lacking source owner name place) := by
  rw [lacking?, Source.piece?_eq_some hname]
  rfl

theorem verbatim_lacking (hname : source.text.Holds name nameText)
    (hplace : source.text.isBoundary place = true) :
    (lacking source owner name place).Verbatim source :=
  ⟨Source.has_piece hname, Source.has_empty hplace, source.locates_range _⟩

end

/-! ### Lists in order -/

/-- The part of a list at a span of its script is in the text where the list is. -/
theorem Object.holds_unwrapSpan {list : Excerpt} {span : Span} {part : Text}
    (hlist : source.text.Holds list.span list.text) (h : list.text.Holds (unwrapSpan 0 span) part) :
    source.text.Holds (unwrapSpan list.offset span) part := by
  have h := hlist.trans h
  simp only [unwrapSpan, Nat.zero_add, Span.shift, Excerpt.span] at h
  simpa only [unwrapSpan, Nat.add_comm list.offset] using h

/-- The name that a key gives stands in the key. -/
theorem Object.exists_holds_name {form : Script.KeyForm} {key name : Span} {keyText : Text}
    (hkey : source.text.Holds key keyText)
    (quoted : form = .string → ∃ quote content : Text, Text.size quote = 1 ∧
      keyText = quote ++ (content ++ quote))
    (h : nameSpan? form key = some name) : ∃ nameText, source.text.Holds name nameText := by
  cases form with
  | name | number =>
    cases h
    exact ⟨keyText, hkey⟩
  | string =>
    unfold nameSpan? at h
    dsimp only at h
    split at h
    · cases h
      obtain ⟨quote, content, hquote, rfl⟩ := quoted rfl
      exact ⟨content, hkey.between hquote hquote⟩
    · cases h
  | bigNumber | privateName | computed => cases h

/-- What a property gives is read without a failing slice, and its parts are in the text. -/
theorem Object.outcome_spec {list : Excerpt} (owner : Nat) {p : Script.Outline.Property}
    (hlist : source.text.Holds list.span list.text)
    (within : ∀ span ∈ p.spans,
      Script.Within (Script.listScript list.text) (Script.listBody list.text) span)
    (quotes : ∀ span key form value, p = .entry span key form value → key.form = .string →
      Script.Quoted (Script.listScript list.text) key.span) :
    outcome? source owner list.offset p = some (outcome source owner list.offset p) ∧
      ∀ b, outcome source owner list.offset p = .ok b → b.Verbatim source := by
  cases p with
  | spread span => exact ⟨rfl, by rintro b ⟨⟩⟩
  | entry span key form value =>
    obtain ⟨keyText, hkeyScript, hkeyList⟩ :=
      (within key.span (by simp [Script.Outline.Property.spans])).exists_holds
    obtain ⟨valueText, -, hvalueList⟩ :=
      (within value (by simp [Script.Outline.Property.spans])).exists_holds
    have hkey := holds_unwrapSpan hlist hkeyList
    have hvalue := holds_unwrapSpan hlist hvalueList
    have hquoted : key.form = .string → ∃ quote content : Text, Text.size quote = 1 ∧
        keyText = quote ++ (content ++ quote) := by
      intro hform
      obtain ⟨quote, content, hsize, hscript⟩ := (quotes _ _ _ _ rfl hform).exists_holds
      exact ⟨[quote], content, hsize, hkeyScript.slice_eq.symm.trans hscript.slice_eq⟩
    unfold outcome? outcome
    dsimp only
    by_cases hcomputed : key.form = .computed
    · rw [if_pos hcomputed, if_pos hcomputed]
      exact ⟨rfl, by rintro b ⟨⟩⟩
    · rw [if_neg hcomputed, if_neg hcomputed]
      cases form with
      | method | getter | setter => exact ⟨rfl, by rintro b ⟨⟩⟩
      | value | shorthand =>
        dsimp only
        rcases hname : nameSpan? key.form (unwrapSpan list.offset key.span) with _ | name
        · exact ⟨rfl, by rintro b ⟨⟩⟩
        · obtain ⟨nameText, hnameText⟩ := exists_holds_name hkey hquoted hname
          dsimp only
          split
          · rw [lacking?_eq_some owner hnameText]
            refine ⟨rfl, ?_⟩
            rintro b ⟨⟩
            exact verbatim_lacking owner hnameText hkey.isBoundary_stop
          · rw [complete?_eq_some owner hnameText hvalue]
            refine ⟨rfl, ?_⟩
            rintro b ⟨⟩
            exact verbatim_complete owner _ hnameText hvalue

/-- A list is read as an object literal without a failing slice. -/
theorem Object.read_spec {list : Excerpt} (owner : Nat)
    (hlist : source.text.Holds list.span list.text) (reported : parser.ListReported list.text)
    (quotes : parser.QuotesKeys) :
    read? parser source owner list = some (read parser source owner list) ∧
      ∀ outcomes, read parser source owner list = .ok outcomes →
        ∀ b ∈ bindingsOf outcomes, b.Verbatim source := by
  unfold read? read
  rcases hps : properties parser list.text with failure | ps
  · exact ⟨rfl, by rintro outcomes ⟨⟩⟩
  · obtain ⟨e, span, he, -, rfl⟩ := exists_of_properties hps
    have hspec := fun p hp => outcome_spec owner hlist (reported e he p hp)
      fun _ _ _ _ heq => quotes _ e he _ _ _ _ (heq ▸ hp)
    dsimp only
    rw [mapM_eq_some_map fun p hp => (hspec p hp).1]
    refine ⟨rfl, ?_⟩
    rintro outcomes ⟨⟩ b hb
    obtain ⟨p, hp, hb⟩ := List.mem_map.1 (mem_bindingsOf.1 hb)
    exact (hspec p hp).2 b hb

/-! ### Entries that are saved -/

/-- The expression that is saved of a value stands in it. -/
theorem Salvage.exists_holds_expression {value : Text} {span : Span}
    (reported : ∀ part, part <:+: value → parser.ExpressionReported part)
    (h : expressionSpan? parser value = some span) : ∃ part, value.Holds span part := by
  obtain ⟨front, back, rfl, e, he, rfl⟩ := exists_of_expressionSpan? h
  obtain ⟨-, hle, -, hstart, hstop⟩ :=
    reported front (List.prefix_append front back).isInfix e he
  obtain ⟨part, hpart⟩ := Text.exists_holds hstart hstop hle
  exact ⟨part, hpart.extend back⟩

/-- The name of an entry is a part of it. -/
theorem Salvage.contains_name (entry : Excerpt) : entry.Contains (name entry).1 := by
  unfold name
  dsimp only
  split
  · exact (entry.contains_drop 1).trans (Excerpt.contains_take _ _)
  · exact (entry.contains_drop 1).trans (Excerpt.contains_take _ _)
  · exact entry.contains_take _

/-- What is saved of an entry is read without a failing slice, and its parts are in the text. -/
theorem Salvage.read_spec {entry : Excerpt} (owner : Nat)
    (hentry : source.text.Holds entry.span entry.text)
    (reported : ∀ part, part <:+: entry.text → parser.ExpressionReported part) :
    read? parser source owner entry = some (read parser source owner entry) ∧
      ∀ b, read parser source owner entry = .ok b → b.Verbatim source := by
  have hname := (contains_name entry).holds hentry
  have hbehind := entry.contains_drop (name entry).2
  have hvalue := hbehind.trans (entry.drop (name entry).2).contains_behind_first
  have htrimmed := hvalue.trans (Excerpt.contains_trim _)
  unfold read? read
  dsimp only
  split
  · exact ⟨rfl, by rintro b ⟨⟩⟩
  · split
    · exact ⟨rfl, by rintro b ⟨⟩⟩
    · split
      · exact ⟨rfl, by rintro b ⟨⟩⟩
      · split
        · rcases hspan : expressionSpan? parser
              ((entry.drop (name entry).2).trimStart.drop 1).trim.text with _ | span
          · dsimp only
            rw [lacking?_eq_some owner hname]
            refine ⟨rfl, ?_⟩
            rintro b ⟨⟩
            exact verbatim_lacking owner hname (hvalue.holds hentry).isBoundary_start
          · obtain ⟨part, hpart⟩ := exists_holds_expression
              (fun part hpart => reported part (hpart.trans htrimmed.infix_text)) hspan
            have hparam : source.text.Holds (span.shift
                ((entry.drop (name entry).2).trimStart.drop 1).trim.offset) part :=
              (htrimmed.holds hentry).trans hpart
            dsimp only
            rw [complete?_eq_some owner hname hparam]
            refine ⟨rfl, ?_⟩
            rintro b ⟨⟩
            exact verbatim_complete owner _ hname hparam
        · rw [lacking?_eq_some owner hname]
          refine ⟨rfl, ?_⟩
          rintro b ⟨⟩
          exact verbatim_lacking owner hname (hbehind.holds hentry).isBoundary_start

/-! ### Lists -/

/-- An entry is read without a failing slice, and the parts of its bindings are in the text. -/
theorem readEntry_spec {entry : Excerpt} (owner : Nat)
    (hentry : source.text.Holds entry.span entry.text) (reports : parser.Reports entry.text)
    (quotes : parser.QuotesKeys) :
    readAlone? parser source owner entry = some (readEntry parser source owner entry) ∧
      ∀ b ∈ bindingsOf (readEntry parser source owner entry), b.Verbatim source := by
  obtain ⟨hread, hverbatim⟩ := Object.read_spec owner hentry (reports _ List.infix_rfl).1 quotes
  obtain ⟨hsaved, hsavedVerbatim⟩ := Salvage.read_spec owner hentry
    fun part hpart => (reports part hpart).2
  unfold readAlone? readEntry
  rw [hread, hsaved]
  rcases houtcomes : Object.read parser source owner entry with failure | outcomes
  · refine ⟨rfl, ?_⟩
    intro b hb
    exact hsavedVerbatim b (List.mem_singleton.1 (mem_bindingsOf.1 hb)).symm
  · exact ⟨rfl, hverbatim outcomes houtcomes⟩

/-- A list is read without a failing slice, and the parts of its bindings are in the text. -/
theorem readList_spec {body : Span} {list : Text} (owner : Nat)
    (hbody : source.text.Holds body list) (reports : parser.Reports source.text)
    (quotes : parser.QuotesKeys) :
    readList? parser source owner body = some (readList parser source owner body) ∧
      ∀ b ∈ bindingsOf (readList parser source owner body), b.Verbatim source := by
  have hlist := hbody.excerpt
  have hreports : parser.Reports list := by
    obtain ⟨front, back, hsource, -⟩ := hbody
    exact reports.part ⟨front, back, hsource.symm⟩
  obtain ⟨hread, hverbatim⟩ := Object.read_spec owner hlist (hreports _ List.infix_rfl).1 quotes
  have hentries : ∀ e ∈ entries ⟨body.start, list⟩,
      readAlone? parser source owner e = some (readEntry parser source owner e) ∧
        ∀ b ∈ bindingsOf (readEntry parser source owner e), b.Verbatim source := by
    intro e he
    have hcontains := (entries_spec ⟨body.start, list⟩).1 e he
    exact readEntry_spec owner (hcontains.holds hlist) (hreports.part hcontains.infix_text) quotes
  unfold readList? readList
  rw [Source.excerpt?_eq_some hbody, Source.excerpt_eq hbody]
  dsimp only [Option.bind_eq_bind, Option.bind_some]
  split
  · exact ⟨rfl, by simp [bindingsOf]⟩
  · rw [hread]
    rcases houtcomes : Object.read parser source owner ⟨body.start, list⟩ with failure | outcomes
    · dsimp only [Option.bind_some]
      rw [mapM_eq_some_map fun e he => (hentries e he).1]
      refine ⟨rfl, ?_⟩
      intro b hb
      have hb := mem_bindingsOf.1 hb
      rcases List.mem_cons.1 hb with hb | hb
      · cases hb
      · obtain ⟨e, he, hb⟩ := List.mem_flatMap.1 hb
        exact (hentries e he).2 b (mem_bindingsOf.2 hb)
    · exact ⟨rfl, hverbatim outcomes houtcomes⟩

end Binding

end BoundTemplate
