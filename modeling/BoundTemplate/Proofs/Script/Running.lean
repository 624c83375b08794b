import BoundTemplate.Script.Grammar

/-!
# Readers that give a value

A reader gives a value between two states, or stops. What a reader gives is followed through its
steps: some leave the state as it is, one goes past a token, and a repeated step is a chain of
steps. The elements of a list with commas are such a chain.
-/

namespace BoundTemplate.Script

variable {script : Text} {α β : Type}

/-- One state is another with its token behind it. -/
structure State.Past (s s' : State script) : Prop where
  cursor : s'.cursor = s.cursor.readToken.2
  token : s'.token = s.cursor.readToken.1
  lastStop : s'.lastStop = s.token.stop

namespace Parse

/-- Reading from a state gives a value and ends in another state. -/
def Gives (p : Parse script α) (s : State script) (a : α) (s' : State script) : Prop :=
  p.run s = .ok (a, s')

variable {p : Parse script α} {f : α → Parse script β} {s s' : State script} {a : α} {b : β}

theorem gives_pure {a' : α} : Gives (pure a) s a' s' ↔ a' = a ∧ s' = s := by
  constructor
  · intro h
    cases h
    exact ⟨rfl, rfl⟩
  · rintro ⟨rfl, rfl⟩
    rfl

/-- Two readers give a value one after the other. -/
theorem gives_bind :
    Gives (p >>= f) s b s' ↔ ∃ a s₁, Gives p s a s₁ ∧ Gives (f a) s₁ b s' := by
  have hrun : (p >>= f).run s = (p.run s >>= fun r => (f r.1).run r.2) := rfl
  unfold Gives
  rw [hrun]
  constructor
  · intro h
    cases hp : p.run s with
    | error d =>
      rw [hp] at h
      cases h
    | ok r =>
      rw [hp] at h
      exact ⟨r.1, r.2, rfl, h⟩
  · rintro ⟨a, s₁, hp, hf⟩
    rw [hp]
    exact hf

theorem not_gives_fail {problem : Problem} {offset : Nat} :
    ¬Gives (fail problem offset : Parse script α) s a s' := nofun

theorem not_gives_unexpected : ¬Gives (unexpected : Parse script α) s a s' := by
  intro h
  unfold unexpected at h
  obtain ⟨_, _, -, h⟩ := gives_bind.1 h
  dsimp only at h
  split at h
  · cases h
  · split at h <;> exact not_gives_fail h

/-! ### Readers that stay where they are -/

/-- A reader leaves the state as it is. -/
def Stays (p : Parse script α) : Prop := ∀ s a s', Gives p s a s' → s' = s

theorem Stays.pure (a : α) : Stays (pure a : Parse script α) :=
  fun _ _ _ h => (gives_pure.1 h).2

theorem Stays.ite {c : Prop} [Decidable c] {q : Parse script α} (hp : Stays p) (hq : Stays q) :
    Stays (if c then p else q) := by
  split
  · exact hp
  · exact hq

theorem Stays.bind (hp : Stays p) (hf : ∀ a, Stays (f a)) : Stays (p >>= f) := by
  intro s b s' h
  obtain ⟨a, s₁, h₁, h₂⟩ := gives_bind.1 h
  exact (hf a _ _ _ h₂).trans (hp _ _ _ h₁)

theorem gives_bind_get {f : State script → Parse script β} :
    Gives (get >>= f) s b s' ↔ Gives (f s) s b s' := Iff.rfl

theorem gives_bind_token {f : Token script → Parse script β} :
    Gives (token >>= f) s b s' ↔ Gives (f s.token) s b s' := Iff.rfl

theorem gives_bind_kind {f : Kind → Parse script β} :
    Gives (kind >>= f) s b s' ↔ Gives (f s.token.kind) s b s' := Iff.rfl

theorem gives_bind_start {f : Nat → Parse script β} :
    Gives (start >>= f) s b s' ↔ Gives (f s.token.start) s b s' := Iff.rfl

theorem gives_bind_spanFrom {first : Nat} {f : Span → Parse script β} :
    Gives (spanFrom first >>= f) s b s' ↔ Gives (f ⟨first, s.lastStop⟩) s b s' := Iff.rfl

theorem gives_bind_atSign {sign : Sign} {f : Bool → Parse script β} :
    Gives (atSign sign >>= f) s b s' ↔ Gives (f (s.token.kind == .sign sign)) s b s' := Iff.rfl

theorem stays_token : Stays (token : Parse script (Token script)) :=
  fun _ _ _ h => (gives_pure.1 h).2

theorem stays_kind : Stays (kind : Parse script Kind) := fun _ _ _ h => (gives_pure.1 h).2

theorem stays_start : Stays (start : Parse script Nat) := fun _ _ _ h => (gives_pure.1 h).2

theorem stays_atSign (sign : Sign) : Stays (atSign sign : Parse script Bool) :=
  fun _ _ _ h => (gives_pure.1 h).2

theorem stays_atWord (w : String) : Stays (atWord w : Parse script Bool) :=
  fun _ _ _ h => (gives_pure.1 h).2

theorem stays_nextToken (test : Token script → Bool) : Stays (nextToken test) :=
  fun _ _ _ h => (gives_pure.1 h).2

theorem stays_lookahead (p : Parse script α) : Stays (lookahead p) := by
  intro s o s' h
  unfold lookahead at h
  rw [gives_bind_get] at h
  split at h <;> exact (gives_pure.1 h).2

/-- A reader that is tried and would stop leaves the state as it is. -/
theorem gives_attempt_none (h : Gives (attempt p) s none s') : s' = s := by
  unfold attempt at h
  rw [gives_bind_get] at h
  split at h
  · obtain ⟨_, _, -, h⟩ := gives_bind.1 h
    cases (gives_pure.1 h).1
  · exact (gives_pure.1 h).2

/-! ### What a reader ends with -/

/-- What a reader gives from a state, and the state that it ends in, have a property. -/
def Ensures (s : State script) (p : Parse script α) (P : α → State script → Prop) : Prop :=
  ∀ a s', Gives p s a s' → P a s'

namespace Ensures

variable {P : α → State script → Prop} {Q : β → State script → Prop}

theorem pure (h : P a s) : Ensures s (pure a : Parse script α) P := by
  intro a' s' hgives
  obtain ⟨rfl, rfl⟩ := gives_pure.1 hgives
  exact h

/-- What a step ensures may be used for the next one. -/
theorem bind_of (hp : Ensures s p P) (hf : ∀ a s₁, P a s₁ → Ensures s₁ (f a) Q) :
    Ensures s (p >>= f) Q := by
  intro b s' h
  obtain ⟨a, s₁, h₁, h₂⟩ := gives_bind.1 h
  exact hf a s₁ (hp _ _ h₁) _ _ h₂

/-- What the last step ensures is ensured. -/
theorem bind (hf : ∀ a s₁, Ensures s₁ (f a) Q) : Ensures s (p >>= f) Q := by
  intro b s' h
  obtain ⟨a, s₁, -, h⟩ := gives_bind.1 h
  exact hf a s₁ _ _ h

/-- A step that leaves the state as it is leaves the next one where it is. -/
theorem look (hp : Stays p) (hf : ∀ a, Ensures s (f a) Q) : Ensures s (p >>= f) Q := by
  intro b s' h
  obtain ⟨a, s₁, h₁, h₂⟩ := gives_bind.1 h
  obtain rfl := hp _ _ _ h₁
  exact hf a _ _ h₂

theorem ite {c : Prop} [Decidable c] {q : Parse script α} (hp : Ensures s p P)
    (hq : Ensures s q P) : Ensures s (if c then p else q) P := by
  split
  · exact hp
  · exact hq

/-- A step that may be left out in front of the last one ensures nothing. -/
theorem optional {c : Prop} [Decidable c] {step : Parse script Unit}
    {last : Unit → Parse script α} (h : ∀ u s₁, Ensures s₁ (last u) P) :
    Ensures s (if c then step >>= last else last ()) P := .ite (.bind h) (h () s)

theorem fail (problem : Problem) (offset : Nat) (P : α → State script → Prop) :
    Ensures s (fail problem offset) P := fun _ _ h => absurd h not_gives_fail

/-- Nothing is read behind a failure. -/
theorem fail_bind (problem : Problem) (offset : Nat) (f : α → Parse script β) :
    Ensures s (Parse.fail problem offset >>= f) Q :=
  .bind_of (.fail problem offset fun _ _ => False) fun _ _ h => h.elim

theorem unexpected (P : α → State script → Prop) : Ensures s unexpected P :=
  fun _ _ h => absurd h not_gives_unexpected

/-- What is made of the span that has been read ends where reading ends. -/
theorem spanFrom {first : Nat} {make : Span → α} (h : P (make ⟨first, s.lastStop⟩) s) :
    Ensures s (do return make (← spanFrom first)) P := by
  intro a s' hgives
  rw [gives_bind_spanFrom] at hgives
  obtain ⟨rfl, rfl⟩ := gives_pure.1 hgives
  exact h

end Ensures

/-! ### Tokens -/

theorem past_pass {u : Unit} (h : Gives pass s u s') : s.Past s' := by
  cases h
  exact ⟨rfl, rfl, s.behind.symm⟩

/-- Going to the next token goes past the current one, and at most records a problem. -/
theorem past_advance {u : Unit} (h : Gives advance s u s') : s.Past s' := by
  unfold advance at h
  rw [gives_bind_token] at h
  dsimp only at h
  split at h
  · obtain ⟨_, s₁, hreport, h⟩ := gives_bind.1 h
    cases hreport
    obtain ⟨hcursor, htoken, hstop⟩ := past_pass h
    exact ⟨hcursor, htoken, hstop⟩
  · exact past_pass h

/-- A sign is gone past, or is not there. -/
theorem gives_eatSign {sign : Sign} {found : Bool} (h : Gives (eatSign sign) s found s') :
    found = true ∧ s.token.kind = .sign sign ∧ s.Past s' ∨
      found = false ∧ s.token.kind ≠ .sign sign ∧ s' = s := by
  unfold eatSign at h
  rw [gives_bind_atSign] at h
  split at h
  · next hkind =>
    obtain ⟨_, s₁, hadvance, h⟩ := gives_bind.1 h
    obtain ⟨rfl, rfl⟩ := gives_pure.1 h
    exact .inl ⟨rfl, beq_iff_eq.1 hkind, past_advance hadvance⟩
  · next hkind =>
    obtain ⟨rfl, rfl⟩ := gives_pure.1 h
    exact .inr ⟨rfl, fun h => hkind (beq_iff_eq.2 h), rfl⟩

/-- A sign that is expected is there. -/
theorem gives_expectSign {sign : Sign} {u : Unit} (h : Gives (expectSign sign) s u s') :
    s.token.kind = .sign sign ∧ s.Past s' := by
  unfold expectSign expect at h
  rw [gives_bind_token] at h
  split at h
  · next hkind => exact ⟨beq_iff_eq.1 hkind, past_advance h⟩
  · exact absurd h not_gives_fail

/-! ### Repeated steps -/

/-- A step is repeated until it gives a result. -/
inductive Repeats {script : Text} {α β : Type} (step : α → Parse script (α ⊕ β)) :
    α → State script → β → State script → Prop
  | stop {a : α} {s s' : State script} {b : β} (last : Gives (step a) s (.inr b) s') :
      Repeats step a s b s'
  | more {a a' : α} {s s₁ s' : State script} {b : β} (first : Gives (step a) s (.inl a') s₁)
      (others : Repeats step a' s₁ b s') : Repeats step a s b s'

theorem repeats_iterate {step : α → Parse script (α ⊕ β)} {n : Nat}
    (h : Gives (iterate step n a) s b s') : Repeats step a s b s' := by
  induction n generalizing a s with
  | zero =>
    obtain ⟨_, _, -, h⟩ := gives_bind.1 h
    exact absurd h not_gives_fail
  | succ n ih =>
    obtain ⟨r, s₁, hstep, h⟩ := gives_bind.1 h
    cases r with
    | inl a' => exact .more hstep (ih h)
    | inr b' =>
      obtain ⟨rfl, rfl⟩ := gives_pure.1 h
      exact .stop hstep

theorem repeats_loop {step : α → Parse script (α ⊕ β)} (h : Gives (loop a step) s b s') :
    Repeats step a s b s' := repeats_iterate h

/-- What a repeated step keeps, and ensures with its result, is ensured. -/
theorem Ensures.loop {step : α → Parse script (α ⊕ β)} {I : α → State script → Prop}
    {P : β → State script → Prop}
    (hstep : ∀ a s, I a s → Ensures s (step a) fun r s' => r.elim (I · s') (P · s'))
    (ha : I a s) : Ensures s (loop a step) P := by
  intro b s' h
  have hrepeats := repeats_loop h
  clear h
  induction hrepeats with
  | stop last => exact hstep _ _ ha _ _ last
  | more first others ih => exact ih (hstep _ _ ha _ _ first)

/-! ### Lists with commas -/

/-- Elements are read one after the other, with a comma between any two and perhaps one behind the
last. -/
inductive Listed {script : Text} {α : Type} (element : Parse script α) :
    State script → List α → State script → Prop
  | nil (s : State script) : Listed element s [] s
  | last {a : α} {s s' : State script} (read : Gives element s a s') : Listed element s [a] s'
  | cons {a : α} {as : List α} {s s₁ s₂ s' : State script} (read : Gives element s a s₁)
      (comma : s₁.token.kind = .sign .comma) (past : s₁.Past s₂)
      (others : Listed element s₂ as s') : Listed element s (a :: as) s'

/-- What a list holds behind one of its elements: nothing, or a comma and the others. -/
def ListedBehind (element : Parse script α) (s : State script) (as : List α)
    (s' : State script) : Prop :=
  as = [] ∧ s' = s ∨
    ∃ s₁, s.token.kind = .sign .comma ∧ s.Past s₁ ∧ Listed element s₁ as s'

theorem ListedBehind.cons {element : Parse script α} {s₁ : State script} {as : List α}
    (read : Gives element s a s₁) (h : ListedBehind element s₁ as s') :
    Listed element s (a :: as) s' := by
  rcases h with ⟨rfl, rfl⟩ | ⟨s₂, comma, past, others⟩
  · exact .last read
  · exact .cons read comma past others

/-- Behind the elements so far stand no others, or a comma and one more element. Where no comma is
found to end the list, nothing is gone past. -/
theorem gives_nextElement {closer : Sign} {element : Parse script α} {elements : List α}
    {result : List α ⊕ (List α × Option Nat)}
    (h : Gives (nextElement closer element elements) s result s') :
    (∃ comma?, result = .inr (elements.reverse, comma?) ∧ ListedBehind element s [] s' ∧
        (comma? = none → s' = s)) ∨
      ∃ a s₁, result = .inl (a :: elements) ∧ s.token.kind = .sign .comma ∧ s.Past s₁ ∧
        Gives element s₁ a s' := by
  unfold nextElement at h
  rw [gives_bind_token] at h
  split at h
  · obtain ⟨rfl, rfl⟩ := gives_pure.1 h
    exact .inl ⟨none, rfl, .inl ⟨rfl, rfl⟩, fun _ => rfl⟩
  dsimp only at h
  split at h
  · obtain ⟨_, _, h, -⟩ := gives_bind.1 h
    exact absurd h not_gives_fail
  next hcomma =>
    have hcomma : s.token.kind = .sign .comma := by simpa using hcomma
    obtain ⟨_, s₁, hadvance, h⟩ := gives_bind.1 h
    have hpast := past_advance hadvance
    rw [gives_bind_atSign] at h
    split at h
    · obtain ⟨rfl, rfl⟩ := gives_pure.1 h
      exact .inl ⟨some s.token.start, rfl, .inr ⟨s', hcomma, hpast, .nil s'⟩, nofun⟩
    · obtain ⟨a, s₂, hread, h⟩ := gives_bind.1 h
      obtain ⟨rfl, rfl⟩ := gives_pure.1 h
      exact .inr ⟨a, s₁, rfl, hcomma, hpast, hread⟩

/-- The elements so far are kept in reverse, and the others follow them. -/
theorem listedBehind_of_repeats {closer : Sign} {element : Parse script α} {elements : List α}
    {result : List α × Option Nat}
    (h : Repeats (nextElement closer element) elements s result s') :
    ∃ others, result.1 = elements.reverse ++ others ∧ ListedBehind element s others s' ∧
      (others = [] → result.2 = none → s' = s) := by
  induction h with
  | stop last =>
    rcases gives_nextElement last with ⟨comma?, hresult, hbehind, hstays⟩ | ⟨a, s₁, hresult, -⟩
    · cases hresult
      exact ⟨[], (List.append_nil _).symm, hbehind, fun _ => hstays⟩
    · cases hresult
  | more first others ih =>
    rcases gives_nextElement first with
      ⟨comma?, hresult, -⟩ | ⟨a, s₁, hresult, hcomma, hpast, hread⟩
    · cases hresult
    · cases hresult
      obtain ⟨others, hresult, hbehind, -⟩ := ih
      refine ⟨a :: others, ?_, .inr ⟨s₁, hcomma, hpast, hbehind.cons hread⟩, nofun⟩
      rw [hresult, List.reverse_cons, List.append_assoc]
      rfl

/-- A list with commas is read element by element. The only element of one without commas ends where
the list ends. -/
theorem listed_commaList {closer : Sign} {element : Parse script α} {as : List α}
    {comma? : Option Nat} (h : Gives (commaList closer element) s (as, comma?) s') :
    Listed element s as s' ∧ ∀ a, as = [a] → comma? = none → Gives element s a s' := by
  unfold commaList at h
  rw [gives_bind_kind] at h
  split at h
  · obtain ⟨h, rfl⟩ := gives_pure.1 h
    cases h
    exact ⟨.nil _, nofun⟩
  · obtain ⟨a, s₁, hread, h⟩ := gives_bind.1 h
    obtain ⟨others, rfl, hbehind, hstays⟩ := listedBehind_of_repeats (repeats_loop h)
    refine ⟨hbehind.cons hread, ?_⟩
    intro a' hone hnone
    cases hone
    obtain rfl := hstays rfl hnone
    exact hread

end Parse

end BoundTemplate.Script
