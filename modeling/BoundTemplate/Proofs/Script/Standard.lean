import BoundTemplate.Proofs.Binding.Laws
import BoundTemplate.Proofs.Script.Enclosed

/-!
# What the standard parser reports

The standard parser keeps the laws about keys and object literals. An entry of an object literal
reaches from the token at which it is read to the last token that is read for it, so the entries
stand in a row between the braces.
-/

namespace BoundTemplate

namespace Script

open Parse

variable {script : Text}

/-! ### Entries in a row -/

/-- An entry that starts at an offset reaches to the end of the last token that is read for it. -/
def Spans (first : Nat) (p : Parse script (Property script)) : Prop :=
  ∀ s, Ensures s p fun property s' => property.span = ⟨first, s'.lastStop⟩

namespace Rules

variable {g : Rules script} {ctx : Context}

theorem spans_accessorEntry (first : Nat) (form : PropertyForm)
    (rest : Parse script (Expr script)) : Spans first (g.accessorEntry ctx first form rest) := by
  intro s
  unfold accessorEntry
  exact .bind fun _ _ => .bind fun _ _ => .bind fun _ _ => .spanFrom rfl

theorem spans_shorthand (first : Nat) (key : Key script) :
    Spans first (g.shorthand ctx first key) := by
  intro s
  unfold shorthand
  refine .bind fun _ _ => .ite (.bind fun _ _ => .bind fun _ _ => ?_) ?_ <;> exact .spanFrom rfl

/-- An entry reaches from the token at which it is read to the last token that is read for it. -/
theorem span_of_gives_entry {s s' : State script} {property : Property script}
    (h : Gives (g.entry ctx) s property s') : property.span = ⟨s.token.start, s'.lastStop⟩ := by
  unfold entry at h
  rw [gives_bind_start] at h
  refine (?_ : Spans s.token.start _) _ _ _ h
  intro s₁
  refine .bind fun _ _ => .ite (.bind fun _ _ => .spanFrom rfl) ?_
  refine .bind fun found _ => .bind fun _ _ => ?_
  refine .ite (.bind fun _ _ => spans_accessorEntry _ _ _ _) ?_
  refine .bind fun _ _ => .ite (.bind fun _ _ => spans_accessorEntry _ _ _ _) ?_
  refine .bind fun isGenerator _ => .bind fun named _ => .bind fun key _ => ?_
  refine .bind fun _ _ => .bind fun _ _ => .ite (.bind fun _ _ => .bind fun _ _ => .spanFrom rfl) ?_
  refine .bind fun _ _ => .bind fun _ _ => .ite (spans_shorthand _ _ _) ?_
  exact .bind fun _ _ => .bind fun _ _ => .spanFrom rfl

end Rules

/-- The entries that are read one after the other stand in a row. -/
theorem row_of_listed {g : Rules script} {ctx : Context} {s s' : State script}
    {properties : List (Property script)} (h : Listed (g.entry ctx) s properties s') :
    Row script s.lastStop (properties.map Property.span) s'.token.start := by
  induction h with
  | nil s => exact .nil s.apart
  | @last property s s' read =>
    have hspan := Rules.span_of_gives_entry read
    refine .last ?_ ?_ <;> rw [hspan]
    · exact s.apart
    · exact s'.apart
  | @cons property properties s s₁ s₂ s' read comma past others ih =>
    have hspan := Rules.span_of_gives_entry read
    have hcomma := s₁.token.spelled .comma comma
    rw [← past.lastStop] at hcomma
    refine .cons ?_ ?_ hcomma ih <;> rw [hspan]
    · exact s.apart
    · exact s₁.apart

/-! ### Keys that stand for their own values -/

theorem Parse.Ensures.kind {α : Type} {f : Kind → Parse script α} {s : State script}
    {P : α → State script → Prop} (h : Ensures s (f s.token.kind) P) :
    Ensures s (Parse.kind >>= f) P :=
  fun _ _ hgives => h _ _ (gives_bind_kind.1 hgives)

/-- What is read of an element of a list. -/
theorem Parse.Listed.exists_gives {α : Type} {element : Parse script α} {s s' : State script}
    {items : List α} (h : Listed element s items s') :
    ∀ a ∈ items, ∃ s₁ s₂, Gives element s₁ a s₂ := by
  induction h with
  | nil s => exact nofun
  | last read =>
    intro a ha
    obtain rfl := List.mem_singleton.1 ha
    exact ⟨_, _, read⟩
  | cons read comma past others ih =>
    intro a ha
    rcases List.mem_cons.1 ha with rfl | ha
    · exact ⟨_, _, read⟩
    · exact ih a ha

/-- A property that stands for its own value does not have a string for its key. -/
def Property.NamesItself (p : Property script) : Prop :=
  ∀ span key value, p = .entry span key .shorthand value → key.form ≠ .string

namespace Rules

variable {g : Rules script} {ctx : Context}

/-- A key that is a string is read of a token that is one. -/
theorem ensures_key (s : State script) :
    Ensures s (g.key ctx) fun key _ => key.form = .string → s.token.kind = .string := by
  intro key s' h
  unfold Rules.key at h
  rw [gives_bind_token] at h
  refine (?_ : Ensures s _ fun key _ => key.form = .string → s.token.kind = .string) _ _ h
  dsimp only
  split
  · next hkind => exact .bind fun _ _ => .pure fun _ => hkind
  · exact .bind fun _ _ => .bind fun _ _ => .pure (by split <;> exact nofun)
  · exact .bind fun _ _ => .bind fun _ _ => .bind fun _ _ => .pure nofun
  · exact .optional fun _ _ => .bind fun _ _ => .pure nofun

theorem namesItself_accessorEntry {form : PropertyForm} (hform : form ≠ .shorthand) (first : Nat)
    (rest : Parse script (Expr script)) (s : State script) :
    Ensures s (g.accessorEntry ctx first form rest) fun property _ => property.NamesItself := by
  unfold accessorEntry
  refine .bind fun _ _ => .bind fun _ _ => .bind fun _ _ => .spanFrom ?_
  rintro _ _ _ ⟨⟩
  exact absurd rfl hform

theorem namesItself_shorthand {key : Key script} (hkey : key.form ≠ .string) (first : Nat)
    (s : State script) :
    Ensures s (g.shorthand ctx first key) fun property _ => property.NamesItself := by
  have hnames : ∀ span,
      (Property.entry span key .shorthand (.identifier key.span)).NamesItself := by
    rintro _ _ _ _ ⟨⟩
    exact hkey
  unfold shorthand
  refine .bind fun _ _ => .ite (.bind fun _ _ => .bind fun _ _ => ?_) ?_ <;>
    exact .spanFrom (hnames _)

/-- A string does not stand for its own value. -/
theorem namesItself_of_gives_entry {s s' : State script} {property : Property script}
    (h : Gives (g.entry ctx) s property s') : property.NamesItself := by
  unfold entry at h
  rw [gives_bind_start] at h
  refine (?_ : Ensures s _ fun property _ => property.NamesItself) _ _ h
  refine .bind fun _ _ => .ite (.bind fun _ _ => .spanFrom nofun) ?_
  refine .bind fun found _ => .bind fun _ _ => ?_
  refine .ite (.bind fun _ _ => namesItself_accessorEntry (by decide) _ _ _) ?_
  refine .bind fun _ _ => .ite (.bind fun _ _ => namesItself_accessorEntry (by decide) _ _ _) ?_
  refine .bind fun isGenerator s₁ => ?_
  -- The key is read of the token whose kind is looked at.
  refine .kind (.bind_of (ensures_key s₁) fun key _ hkey => ?_)
  refine .bind fun _ _ => .bind fun _ _ => .ite ?_ ?_
  · exact .bind fun _ _ => .bind fun _ _ => .spanFrom nofun
  refine .bind fun _ _ => .bind fun _ _ => ?_
  split
  · next hshorthand =>
    refine namesItself_shorthand (fun hform => ?_) _ _
    rw [hkey hform] at hshorthand
    cases hshorthand
  · exact .bind fun _ _ => .bind fun _ _ => .spanFrom nofun

end Rules

end Script

/-! ### Scripts of lists -/

namespace Script.Cursor

variable {script : Text} {c : Cursor script}

/-- Where no comment is left open, a token is read behind the blanks. -/
theorem readToken_of_closed (h : c.blankEnd.open? = none) :
    c.readToken.1.kind = (c.skip c.blankEnd.length).readKind.1 ∧
      c.readToken.1.start = (c.skip c.blankEnd.length).offset ∧
      c.readToken.2 = (c.skip c.blankEnd.length).readKind.2.2 := by
  unfold readToken
  dsimp only
  split
  · next start hopen =>
    rw [h] at hopen
    cases hopen
  · exact ⟨rfl, rfl, rfl⟩

/-- A bracket that no blank precedes is the next token, whatever follows it. -/
theorem readToken_of_bracket {bracket : Char} {sign : Sign} {t : Text}
    (h : bracket = '(' ∧ sign = .leftParen ∨ bracket = '{' ∧ sign = .leftBrace)
    (hrest : c.rest = bracket :: t) :
    c.readToken.1.kind = .sign sign ∧ c.readToken.1.start = c.offset ∧
      c.readToken.2.rest = t ∧ c.readToken.2.offset = c.offset + 1 := by
  have hblank : c.blankEnd = ⟨0, false, none⟩ := by
    rw [blankEnd, hrest]
    rcases h with ⟨rfl, -⟩ | ⟨rfl, -⟩ <;> rw [Script.blankEnd] <;> rfl
  have hclosed : c.blankEnd.open? = none := by rw [hblank]
  obtain ⟨hkind, hstart, hnext⟩ := readToken_of_closed hclosed
  rw [hblank] at hkind hstart hnext
  rw [hkind, hstart, hnext]
  obtain ⟨rest, offset, problems, stands⟩ := c
  cases hrest
  rcases h with ⟨rfl, rfl⟩ | ⟨rfl, rfl⟩
  · exact ⟨rfl, rfl, rfl, rfl⟩
  · exact ⟨rfl, rfl, rfl, rfl⟩

end Script.Cursor

namespace Script

open Parse

variable {script : Text}

/-- A sign of one character stands between its start and its stop. -/
theorem State.holds_sign {t : Text} {s : State t} {sign : Sign} {c : Char} {start : Nat}
    (hkind : s.token.kind = .sign sign) (hsign : sign.text.toList = [c]) (hc : c.utf8Size = 1)
    (hstart : s.token.start = start) :
    t.Holds ⟨start, start + 1⟩ [c] ∧ s.token.stop = start + 1 := by
  have h := s.token.spelled sign hkind
  have hstop := h.stop_eq
  rw [hsign, Text.size_cons, Text.size_nil, hc] at hstop
  rw [hsign] at h
  subst hstart
  refine ⟨?_, hstop⟩
  rw [← hstop]
  exact h

/-- The script of a list opens with a parenthesis and a brace. -/
theorem opens_listScript (list : Text) :
    (State.ofText (listScript list)).token.kind = .sign .leftParen ∧
      ∀ s₁, (State.ofText (listScript list)).Past s₁ →
        s₁.token.kind = .sign .leftBrace ∧ s₁.token.start = 1 ∧
          s₁.token.stop = Binding.Object.opening.size := by
  have hparen := Cursor.readToken_of_bracket (c := Cursor.ofText (listScript list))
    (.inl ⟨rfl, rfl⟩) rfl
  refine ⟨hparen.1, ?_⟩
  intro s₁ hpast
  obtain ⟨hkind, hstart, -, hoffset⟩ := Cursor.readToken_of_bracket (.inr ⟨rfl, rfl⟩) hparen.2.2.1
  have hcursor : s₁.cursor.offset = Binding.Object.opening.size := by
    rw [hpast.cursor]
    exact hoffset.trans (congrArg (· + 1) hparen.2.2.2)
  refine ⟨?_, ?_, s₁.behind.trans hcursor⟩
  · rw [hpast.token]
    exact hkind
  · rw [hpast.token]
    exact hstart.trans hparen.2.2.2

/-! ### Outlines -/

@[simp] theorem Property.span_outline (p : Property script) : p.outline.span = p.span := by
  cases p <;> rfl

theorem Expr.exists_of_outline {e : Expr script} {span : Span} {ps : List Outline.Property}
    (h : e.outline = .object span ps) :
    ∃ properties, e = .object span properties ∧ ps = properties.map Property.outline := by
  cases e with
  | object _ properties =>
    cases h
    exact ⟨properties, rfl, rfl⟩
  | _ => cases h

/-- What is told as an object literal is one. -/
theorem Expr.exists_of_unparenthesized_outline {e : Expr script} {span : Span}
    {ps : List Outline.Property} (h : e.outline.unparenthesized = .object span ps) :
    ∃ properties, e.unparenthesized = .object span properties ∧
      ps = properties.map Property.outline := by
  cases e with
  | parenthesized _ inner => exact inner.exists_of_outline h
  | object _ properties =>
    cases h
    exact ⟨properties, rfl, rfl⟩
  | _ => cases h

/-- What is told of a property of an object literal. -/
theorem Expr.exists_of_mem_outline {e : Expr script} {p : Outline.Property}
    (h : p ∈ e.outline.properties) : ∃ span properties property,
      e.unparenthesized = .object span properties ∧ property ∈ properties ∧
        p = property.outline := by
  unfold Outline.properties at h
  split at h
  · next span ps hobject =>
    obtain ⟨properties, hproperties, rfl⟩ := exists_of_unparenthesized_outline hobject
    obtain ⟨property, hmem, rfl⟩ := List.mem_map.1 h
    exact ⟨span, properties, property, hproperties, hmem, rfl⟩
  · cases h

namespace Parser

/-- The standard parser tells the outline of the expression that is read. -/
theorem exists_of_read_standard {t : Text} {o : Outline} (h : standard.read t = .ok o) :
    ∃ e, Expr.ofText t = .ok e ∧ o = e.outline := by
  simp only [standard] at h
  split at h
  · next e he =>
    cases h
    exact ⟨e, he, rfl⟩
  · cases h

/-- The entries of the object literal that a list is read as have been read in a row. -/
theorem exists_listed_of_list {list : Text} {e : Expr (listScript list)} {span : Span}
    {properties : List (Property (listScript list))} (he : Expr.ofText (listScript list) = .ok e)
    (hobject : e.unparenthesized = .object span properties) :
    ∃ (g : Rules (listScript list)) (ctx : Context) (s₁ s₂ s₃ s₄ : State (listScript list)),
      (State.ofText (listScript list)).Past s₁ ∧ s₁.Past s₂ ∧
      Listed (g.entry ctx) s₂ properties s₃ ∧ s₃.token.kind = .sign .rightBrace ∧
      span = ⟨s₁.token.start, s₃.token.stop⟩ ∧ s₄.lastStop = s₃.token.stop ∧
      s₄.token.kind = .sign .rightParen ∧
      e = .parenthesized ⟨(State.ofText (listScript list)).token.start, s₄.token.stop⟩
        (.object span properties) := by
  obtain ⟨hparen, hbrace⟩ := opens_listScript list
  exact Expr.exists_listed_of_ofText he hobject hparen fun s₁ h => (hbrace s₁ h).1

theorem quotesKeys_standard : standard.QuotesKeys := by
  intro list o ho span key form value hp hform
  obtain ⟨e, -, rfl⟩ := exists_of_read_standard ho
  obtain ⟨_, _, property, -, -, hproperty⟩ := Expr.exists_of_mem_outline hp
  cases property with
  | spread => cases hproperty
  | entry _ key =>
    cases hproperty
    exact key.quoted hform

theorem namesShorthands_standard : standard.NamesShorthands := by
  intro list o ho span key value hp
  obtain ⟨e, he, rfl⟩ := exists_of_read_standard ho
  obtain ⟨_, _, property, hobject, hmem, hproperty⟩ := Expr.exists_of_mem_outline hp
  obtain ⟨g, ctx, s₁, s₂, s₃, s₄, -, -, hlisted, -⟩ := exists_listed_of_list he hobject
  obtain ⟨s, s', hgives⟩ := hlisted.exists_gives property hmem
  cases property with
  | spread => cases hproperty
  | entry span key _ value =>
    cases hproperty
    exact Rules.namesItself_of_gives_entry hgives span key value rfl

theorem readsNothing_standard : standard.ReadsNothing := by decide +kernel

theorem readsObjects_standard : standard.ReadsObjects := by
  intro list o span ps ho hobject
  obtain ⟨e, he, rfl⟩ := exists_of_read_standard ho
  obtain ⟨properties, hproperties, rfl⟩ := Expr.exists_of_unparenthesized_outline hobject
  obtain ⟨g, ctx, s₁, s₂, s₃, s₄, hpast, hopening, hlisted, hlast, rfl, hbehind, hclosing, rfl⟩ :=
    exists_listed_of_list he hproperties
  obtain ⟨hparen, hparenStop⟩ :=
    State.holds_sign (c := '(') (opens_listScript list).1 rfl rfl rfl
  obtain ⟨hbrace, hbraceStop⟩ :=
    State.holds_sign (c := '\x7b') ((opens_listScript list).2 s₁ hpast).1 rfl rfl rfl
  have hrow := row_of_listed hlisted
  rw [hopening.lastStop, hbraceStop] at hrow
  have hmap : (properties.map Property.outline).map Outline.Property.span =
      properties.map Property.span := by
    rw [List.map_map]
    exact List.map_congr_left fun p _ => p.span_outline
  refine ⟨(State.ofText (listScript list)).apart, hbrace,
    ⟨s₃.token.start, ?_, s₃.token.spelled .rightBrace hlast⟩, ?_⟩
  · rw [hmap]
    exact hrow
  · rintro outer ⟨⟩
    have hgap := s₁.apart
    rw [hpast.lastStop, hparenStop] at hgap
    have hback := s₄.apart
    rw [hbehind] at hback
    exact ⟨hparen, hgap, s₄.token.start, hback, s₄.token.spelled .rightParen hclosing⟩

end Parser

end Script

end BoundTemplate
