import BoundTemplate.Proofs.Script.Running

/-!
# Expressions that are enclosed

An object literal or an expression between parentheses is an operand and nothing more: members,
calls and operators make something else of it. So an assignment that is enclosed is the operand at
which it starts, and reading it ends where reading the operand ends.
-/

namespace BoundTemplate.Script

variable {script : Text}

/-- Whether an expression is an object literal or stands between parentheses. -/
def Expr.isEnclosed : Expr script → Bool
  | .object _ _ | .parenthesized _ _ => true
  | _ => false

/-- Two states look at the same place, if perhaps at another token there. -/
structure State.SamePlace (s s' : State script) : Prop where
  start : s'.token.start = s.token.start
  lastStop : s'.lastStop = s.lastStop

theorem State.SamePlace.refl (s : State script) : s.SamePlace s := ⟨rfl, rfl⟩

theorem State.SamePlace.trans {s₁ s₂ s₃ : State script} (h : s₁.SamePlace s₂)
    (h' : s₂.SamePlace s₃) : s₁.SamePlace s₃ :=
  ⟨h'.start.trans h.start, h'.lastStop.trans h.lastStop⟩

namespace Rules

open Parse

variable {g : Rules script} {ctx : Context} {s s' : State script} {e : Expr script}

/-! ### Readers of what is not enclosed -/

/-- A reader gives no enclosed expression. -/
def NotEnclosed (p : Parse script (Expr script)) : Prop :=
  ∀ s, Ensures s p fun e _ => e.isEnclosed = false

theorem notEnclosed_arrowBody (start : Nat) (isAsync : Bool) :
    NotEnclosed (g.arrowBody ctx start isAsync) := by
  intro s
  unfold arrowBody
  refine .bind fun _ _ => ?_
  split <;> exact .bind fun _ _ => .spanFrom rfl

theorem notEnclosed_yielded : NotEnclosed (g.yielded ctx) := by
  intro s
  unfold yielded
  refine .bind fun first _ => .bind fun _ _ => .optional fun _ _ => .bind fun t _ => .ite ?_ ?_
  · exact .bind fun _ _ => .bind fun _ _ => .optional fun _ _ => .spanFrom rfl
  · exact .spanFrom rfl

theorem notEnclosed_assigned (start : Nat) (target : Expr script) (plain : Bool) :
    NotEnclosed (g.assigned ctx start target plain) := by
  intro s
  unfold assigned
  exact .bind fun _ _ => .bind fun _ _ => .bind fun _ _ => .bind fun _ _ => .spanFrom rfl

theorem notEnclosed_lookedUp (level : Nat) : NotEnclosed (g.lookedUp ctx level) := by
  intro s
  unfold lookedUp
  refine .bind fun first _ => .bind fun _ _ => .optional fun _ _ => ?_
  exact .bind fun _ _ => .bind fun _ _ => .spanFrom rfl

theorem notEnclosed_assertion (start : Nat) (satisfying : Bool) :
    NotEnclosed (g.assertion ctx start satisfying) := by
  intro s
  unfold assertion
  exact .bind fun _ _ => .bind fun _ _ => .bind fun _ _ => .spanFrom rfl

theorem notEnclosed_combine (operator : Kind) (start : Nat) (left right : Operand script) :
    NotEnclosed (combine operator start left right) := by
  intro s
  unfold combine
  refine .bind fun span _ => ?_
  split
  · exact .optional fun _ _ => .pure rfl
  · exact .pure rfl
  · exact .pure rfl
  · exact .optional fun _ _ => .pure rfl
  · exact .pure rfl

theorem notEnclosed_taggedTemplate (start : Nat) (chain : Bool) :
    NotEnclosed (g.taggedTemplate ctx start chain) := by
  intro s
  unfold taggedTemplate
  exact .bind fun first _ => .bind fun _ _ => .optional fun _ _ => .spanFrom rfl

/-! ### Members, calls and operators -/

/-- An expression that is enclosed is the one that was read before, and nothing is read behind
that. -/
def Keeps (e : Expr script) (s : State script) (e' : Expr script) (s' : State script) : Prop :=
  e'.isEnclosed = true → e' = e ∧ s.SamePlace s'

namespace Keeps

variable {e e₁ e₂ e₃ : Expr script} {s s₁ s₂ s₃ : State script}

theorem refl (e : Expr script) (s : State script) : Keeps e s e s := fun _ => ⟨rfl, .refl s⟩

theorem of_notEnclosed (h : e₂.isEnclosed = false) : Keeps e₁ s₁ e₂ s₂ := by
  intro he
  rw [h] at he
  cases he

theorem trans (h : Keeps e₁ s₁ e₂ s₂) (h' : Keeps e₂ s₂ e₃ s₃) : Keeps e₁ s₁ e₃ s₃ := by
  intro he
  obtain ⟨rfl, hplace'⟩ := h' he
  obtain ⟨rfl, hplace⟩ := h he
  exact ⟨rfl, hplace.trans hplace'⟩

theorem stay (h : Keeps e₁ s₁ e₂ s₂) (hplace : s₂.SamePlace s₃) : Keeps e₁ s₁ e₂ s₃ :=
  h.trans fun _ => ⟨rfl, hplace⟩

end Keeps

/-- What is never enclosed keeps what it is read behind. -/
theorem NotEnclosed.keeps {p : Parse script (Expr script)} (h : NotEnclosed p) (e : Expr script)
    (s₁ : State script) : Ensures s p fun e' s' => Keeps e s₁ e' s' :=
  fun _ _ hgives => .of_notEnclosed (h _ _ _ hgives)

/-- Behind an enclosed operand that is kept stand no members. -/
theorem keeps_members (start : Nat) (mayChain : Bool) (operand : Chained script)
    (s : State script) :
    Ensures s (g.members ctx start mayChain operand) fun r s' => Keeps operand.1 s r.1 s' := by
  unfold members
  refine .loop (I := fun r s' => Keeps operand.1 s r.1 s') ?_ (.refl _ _)
  rintro ⟨e, chain⟩ s₁ he
  refine .look stays_kind fun k => ?_
  split
  · exact .bind fun _ _ => .bind fun _ _ => .spanFrom (.of_notEnclosed rfl)
  · refine .ite (.pure he) (.look (stays_nextToken _) fun _ => .ite ?_ ?_)
    · exact .bind fun _ _ => .bind fun _ _ => .bind fun _ _ => .spanFrom (.of_notEnclosed rfl)
    refine .look (stays_nextToken _) fun _ => .ite ?_ (.pure he)
    exact .bind fun _ _ => .bind fun _ _ => .spanFrom (.of_notEnclosed rfl)
  · refine .ite (.pure he) ?_
    exact .bind fun _ _ => .bind fun _ _ => .spanFrom (.of_notEnclosed rfl)
  · exact .bind_of (notEnclosed_taggedTemplate _ _ _) fun e _ he => .pure (.of_notEnclosed he)
  · exact .bind_of (notEnclosed_taggedTemplate _ _ _) fun e _ he => .pure (.of_notEnclosed he)
  · exact .pure he

theorem stays_atTemplate : Stays (atTemplate : Parse script Bool) := by
  unfold atTemplate
  refine .bind stays_kind fun k => ?_
  split <;> exact .pure _

/-- Behind an enclosed operand that is kept stand no members and no arguments. -/
theorem keeps_calls (start : Nat) (operand : Chained script) (s : State script) :
    Ensures s (g.calls ctx start operand) fun r s' => Keeps operand.1 s r.1 s' := by
  unfold calls
  refine .loop (I := fun r s' => Keeps operand.1 s r.1 s') ?_ (.refl _ _)
  intro operand' s₁ hoperand
  refine .bind_of (keeps_members start true operand' s₁) ?_
  rintro ⟨e, chain⟩ s₂ he
  have hkept : Keeps operand.1 s e s₂ := hoperand.trans he
  refine .look stays_start fun mark => ?_
  refine .bind_of (fun _ _ => gives_eatSign) fun optional s₃ heaten => ?_
  refine .look stays_atTemplate fun _ => .ite ?_ (.look (stays_atSign _) fun _ => .ite ?_ ?_)
  · exact .bind_of (notEnclosed_taggedTemplate _ _ _) fun e _ he => .pure (.of_notEnclosed he)
  · exact .bind fun _ _ => .spanFrom (.of_notEnclosed rfl)
  · dsimp only
    split
    · exact .fail_bind _ _ _
    · next hoptional =>
      rcases heaten with ⟨rfl, -⟩ | ⟨-, -, rfl⟩
      · exact absurd rfl hoptional
      · exact .pure hkept

/-- Reading an angle again looks at the same place. -/
theorem samePlace_rereadAngle (s : State script) :
    Ensures s rereadAngle fun _ s' => s.SamePlace s' := by
  intro _ s' h
  cases h
  dsimp only
  split
  · exact ⟨rfl, rfl⟩
  · exact .refl s

/-- Behind an enclosed operand that is kept stand no operators. -/
theorem keeps_operators (level start : Nat) (left : Operand script) (s : State script) :
    Ensures s (g.operators ctx level start left) fun e s' => Keeps left.1 s e s' := by
  unfold operators
  refine .loop (I := fun e s' => Keeps left.1 s e s') ?_ (.refl _ _)
  intro e s₁ he
  refine .bind_of (samePlace_rereadAngle s₁) fun _ s₂ hplace => .look stays_kind fun k => ?_
  have hkept : Keeps left.1 s e s₂ := he.stay hplace
  split
  · exact .pure hkept
  · refine .ite (.pure hkept) (.ite (.look stays_token fun t => .ite (.pure hkept) ?_) ?_)
    · exact .bind_of (notEnclosed_assertion _ _ _) fun e _ he => .pure (.of_notEnclosed he)
    · refine .bind fun _ _ => .bind fun wrapped _ => .bind fun right _ => ?_
      exact .bind_of (notEnclosed_combine _ _ _ _ _) fun e _ he => .pure (.of_notEnclosed he)

/-- Behind an enclosed condition that is kept stands no question mark. -/
theorem keeps_conditional (start : Nat) (condition : Expr script) (s : State script) :
    Ensures s (g.conditional ctx start condition) fun e s' => Keeps condition s e s' := by
  unfold conditional
  refine .bind_of (fun _ _ => gives_eatSign) fun found s₁ heaten => ?_
  rcases heaten with ⟨rfl, -⟩ | ⟨rfl, -, rfl⟩
  · exact .bind fun _ _ => .bind fun _ _ => .bind fun _ _ => .spanFrom (.of_notEnclosed rfl)
  · exact .pure (.refl _ _)

/-! ### From an expression to its operand -/

/-- What a reader gives, if it is enclosed, is what another one gives from the same place, and
nothing is read behind that. -/
def BeginsWith (operand p : Parse script (Expr script)) : Prop :=
  ∀ s e s', Gives p s e s' → e.isEnclosed = true → ∃ s₁, Gives operand s e s₁ ∧ s₁.SamePlace s'

namespace BeginsWith

variable {α : Type} {operand p q : Parse script (Expr script)}

theorem refl (p : Parse script (Expr script)) : BeginsWith p p :=
  fun _ _ s' h _ => ⟨s', h, .refl s'⟩

theorem of_notEnclosed (h : NotEnclosed p) : BeginsWith operand p := by
  intro s e s' hgives he
  rw [h _ _ _ hgives] at he
  cases he

theorem ite {c : Prop} [Decidable c] (hp : BeginsWith operand p) (hq : BeginsWith operand q) :
    BeginsWith operand (if c then p else q) := by
  split
  · exact hp
  · exact hq

/-- Nothing is read in front of the operand. -/
theorem look {test : Parse script α} {f : α → Parse script (Expr script)} (htest : Stays test)
    (hf : ∀ a, BeginsWith operand (f a)) : BeginsWith operand (test >>= f) := by
  intro s e s' h he
  obtain ⟨a, s₁, h₁, h₂⟩ := gives_bind.1 h
  obtain rfl := htest _ _ _ h₁
  exact hf a _ _ _ h₂ he

/-- What is read behind the operand keeps it. -/
theorem bind_of_keeps {f : Expr script → Parse script (Expr script)} (hp : BeginsWith operand p)
    (hf : ∀ e s, Ensures s (f e) fun e' s' => Keeps e s e' s') : BeginsWith operand (p >>= f) := by
  intro s e s' h he
  obtain ⟨first, s₁, h₁, h₂⟩ := gives_bind.1 h
  obtain ⟨rfl, hplace⟩ := hf first s₁ _ _ h₂ he
  obtain ⟨s₂, hoperand, hplace'⟩ := hp _ _ _ h₁ he
  exact ⟨s₂, hoperand, hplace'.trans hplace⟩

end BeginsWith

theorem beginsWith_readAccess : BeginsWith (g.primary ctx) (g.readAccess ctx) := by
  unfold readAccess
  refine .look stays_start fun first => .bind_of_keeps (.refl _) fun operand s => ?_
  refine .bind_of (keeps_calls first (operand, false) s) ?_
  rintro ⟨e, chain⟩ s' he
  refine .pure ?_
  cases chain with
  | true => exact .of_notEnclosed rfl
  | false => exact he

theorem beginsWith_update (first : Nat) : BeginsWith (g.primary ctx) (g.update ctx first) := by
  unfold update
  refine .look stays_kind fun k => .ite (.of_notEnclosed fun s => ?_) ?_
  · exact .bind fun _ _ => .bind fun _ _ => .bind fun _ _ => .spanFrom rfl
  · refine .bind_of_keeps beginsWith_readAccess fun e s => .look stays_token fun t => .ite ?_ ?_
    · exact .bind fun _ _ => .bind fun _ _ => .spanFrom (.of_notEnclosed rfl)
    · exact .pure (.refl e s)

theorem never_refuseAngle {α : Type} (s : State script) :
    Ensures s (g.refuseAngle ctx : Parse script α) fun _ _ => False := by
  unfold refuseAngle
  refine .bind fun found _ => ?_
  split
  · exact .bind fun _ _ => .fail _ _ _
  · exact .unexpected _

theorem stays_atAwait : Stays (atAwait ctx : Parse script Bool) := by
  unfold atAwait
  exact .bind (stays_atWord _) fun _ => .ite (.pure _) (.ite (.pure _) (stays_nextToken _))

theorem beginsWith_readUnary (first : Nat) :
    BeginsWith (g.primary ctx) (g.readUnary ctx first) := by
  unfold readUnary
  refine .look stays_kind fun k => .ite (.of_notEnclosed fun s => ?_) ?_
  · exact .bind fun _ _ => .bind fun _ _ => .bind fun _ _ => .spanFrom rfl
  refine .look (stays_atSign _) fun _ => .ite (.of_notEnclosed fun s => ?_) ?_
  · exact .bind_of (never_refuseAngle s) fun _ _ h => h.elim
  refine .look stays_atAwait fun _ => .ite (.of_notEnclosed fun s => ?_) ?_
  · refine .ite (.bind fun _ _ => .bind fun _ _ => ?_) ?_ <;>
      exact .bind fun _ _ => .bind fun _ _ => .spanFrom rfl
  · exact beginsWith_update first

theorem beginsWith_readOperation (level : Nat) :
    BeginsWith (g.primary ctx) (g.readOperation ctx level) := by
  unfold readOperation
  refine .look stays_start fun first => .look (stays_atSign _) fun wrapped => ?_
  refine .look stays_kind fun k => .ite ?_ ?_
  · exact .bind_of_keeps (.of_notEnclosed (notEnclosed_lookedUp level)) fun left =>
      keeps_operators level first (left, wrapped)
  · exact .bind_of_keeps (beginsWith_readUnary first) fun left =>
      keeps_operators level first (left, wrapped)

/-- An arrow function is not enclosed, and where none starts the state is left as it is. -/
theorem gives_arrowFunction? {found : Option (Expr script)}
    (h : Gives (g.arrowFunction? ctx) s found s') :
    found = none ∧ s' = s ∨ ∃ e, found = some e ∧ e.isEnclosed = false := by
  have hbody : ∀ {first isAsync s₁}, Gives (do return some (← g.arrowBody ctx first isAsync)) s₁
      found s' → ∃ e, found = some e ∧ e.isEnclosed = false := by
    intro first isAsync s₁ h
    obtain ⟨e, s₂, hbody, h⟩ := gives_bind.1 h
    obtain ⟨rfl, rfl⟩ := gives_pure.1 h
    exact ⟨e, rfl, notEnclosed_arrowBody _ _ _ _ _ hbody⟩
  unfold arrowFunction? at h
  rw [gives_bind_start] at h
  obtain ⟨likelihood, s₁, hlookahead, h⟩ := gives_bind.1 h
  obtain rfl := stays_lookahead _ _ _ _ hlookahead
  split at h
  · exact .inl (gives_pure.1 h)
  · obtain ⟨isAsync, s₂, -, h⟩ := gives_bind.1 h
    exact .inr (hbody h)
  · dsimp only at h
    obtain ⟨head?, s₂, hattempt, h⟩ := gives_bind.1 h
    cases head? with
    | none =>
      obtain rfl := gives_attempt_none hattempt
      exact .inl (gives_pure.1 h)
    | some isAsync => exact .inr (hbody h)

theorem stays_atAsyncName : Stays (atAsyncName : Parse script Bool) := by
  unfold atAsyncName
  exact .bind (stays_atWord _) fun _ => .ite (.pure _) (.bind (stays_lookahead _) fun _ => .pure _)

theorem stays_atYield : Stays (atYield ctx : Parse script Bool) := by
  unfold atYield
  exact .bind (stays_atWord _) fun _ => .ite (.pure _) (.ite (.pure _) (stays_nextToken _))

theorem beginsWith_readAssignment : BeginsWith (g.primary ctx) (g.readAssignment ctx) := by
  unfold readAssignment
  refine .look stays_atYield fun _ => .ite (.of_notEnclosed notEnclosed_yielded) ?_
  refine .look stays_start fun first => ?_
  intro s e s' h he
  obtain ⟨found, s₁, hfound, hrest⟩ := gives_bind.1 h
  rcases gives_arrowFunction? hfound with ⟨rfl, rfl⟩ | ⟨e', rfl, he'⟩
  · refine (BeginsWith.look stays_atAsyncName fun _ => .ite (.of_notEnclosed fun s => ?_) ?_)
      _ _ _ hrest he
    · refine .bind fun _ _ => .bind fun _ _ => .optional fun _ _ => .bind fun _ _ => ?_
      exact notEnclosed_arrowBody _ _ _
    refine .bind_of_keeps (beginsWith_readOperation 0) fun operation s => ?_
    refine .look stays_kind fun k => .ite (.bind fun _ _ => ?_) ?_
    · exact (notEnclosed_arrowBody _ _).keeps operation s
    split
    · exact (notEnclosed_assigned _ _ _).keeps operation s
    · exact keeps_conditional first operation s
  · obtain ⟨rfl, rfl⟩ := gives_pure.1 hrest
    rw [he'] at he
    cases he

/-- An enclosed expression has no commas behind it. -/
theorem beginsWith_expression :
    BeginsWith (g.assignment { ctx with decorating := false }) (g.expression ctx) := by
  unfold expression
  refine .look stays_start fun first => .bind_of_keeps (.refl _) fun e s => ?_
  refine .look (stays_atSign _) fun _ => .ite (.pure (.refl e s)) ?_
  refine .loop (I := fun _ _ => True) (fun _ _ _ => .bind fun _ _ => .ite ?_ ?_) trivial
  · exact .bind fun _ _ => .pure trivial
  · exact .spanFrom (.of_notEnclosed rfl)

/-- The rules for nested texts read an assignment as those one level below say. -/
theorem exists_readAssignment {n : Nat} (h : Gives ((rules n).assignment ctx) s e s') :
    ∃ m, Gives ((rules m).readAssignment ctx) s e s' := by
  cases n with
  | zero =>
    obtain ⟨_, _, -, h⟩ := gives_bind.1 h
    exact absurd h not_gives_fail
  | succ m => exact ⟨m, h⟩

/-! ### What is between parentheses and between braces -/

/-- What is between parentheses, if it is enclosed itself, is read from right behind the opening one
up to the closing one. -/
theorem gives_parenthesized (h : Gives (g.parenthesized ctx) s e s') :
    ∃ stop inner, e = .parenthesized ⟨s.token.start, stop⟩ inner ∧
      (inner.isEnclosed = true → ∃ s₁ s₂, s.Past s₁ ∧
        Gives (g.assignment { ctx.withIn with decorating := false }) s₁ inner s₂ ∧
        s₂.token.kind = .sign .rightParen ∧ stop = s₂.token.stop) := by
  unfold parenthesized at h
  rw [gives_bind_start] at h
  obtain ⟨_, s₁, hopening, h⟩ := gives_bind.1 h
  rw [gives_bind_start] at h
  obtain ⟨⟨es, comma?⟩, s₂, hes, h⟩ := gives_bind.1 h
  dsimp only at h
  split at h
  · exact absurd h not_gives_fail
  · rw [gives_bind_spanFrom] at h
    obtain ⟨_, s₃, hclosing, h⟩ := gives_bind.1 h
    split at h
    · exact absurd h not_gives_fail
    · rw [gives_bind_spanFrom] at h
      obtain ⟨rfl, rfl⟩ := gives_pure.1 h
      exact ⟨_, _, rfl, fun _ => ⟨s₁, s₂, (gives_expectSign hopening).2,
        (listed_commaList hes).2 _ rfl rfl, (gives_expectSign hclosing).1,
        (gives_expectSign hclosing).2.lastStop⟩⟩
    · rw [gives_bind_spanFrom] at h
      obtain ⟨rfl, rfl⟩ := gives_pure.1 h
      exact ⟨_, _, rfl, nofun⟩

theorem rememberComma_spec (start : Nat) (comma? : Option Nat) (s : State script) :
    Ensures s (rememberComma start comma?) fun _ s' =>
      s'.token = s.token ∧ s'.cursor = s.cursor := by
  intro _ s' h
  cases comma? <;> cases h <;> exact ⟨rfl, rfl⟩

/-- An object literal is its entries between two braces. -/
theorem gives_object (h : Gives (g.object ctx) s e s') :
    ∃ properties s₁ s₂, s.Past s₁ ∧ Listed (g.entry ctx.withIn) s₁ properties s₂ ∧
      s₂.token.kind = .sign .rightBrace ∧ s₂.Past s' ∧
      e = .object ⟨s.token.start, s₂.token.stop⟩ properties := by
  unfold object at h
  rw [gives_bind_start] at h
  obtain ⟨_, s₁, hopening, h⟩ := gives_bind.1 h
  obtain ⟨⟨properties, comma?⟩, s₂, hproperties, h⟩ := gives_bind.1 h
  obtain ⟨_, s₃, hcomma, h⟩ := gives_bind.1 h
  obtain ⟨htoken, hcursor⟩ := rememberComma_spec _ _ _ _ _ hcomma
  obtain ⟨_, s₄, hclosing, h⟩ := gives_bind.1 h
  obtain ⟨hbrace, hpast⟩ := gives_expectSign hclosing
  rw [gives_bind_spanFrom] at h
  obtain ⟨rfl, rfl⟩ := gives_pure.1 h
  rw [htoken] at hbrace
  have hpast : s₂.Past s' :=
    ⟨hcursor ▸ hpast.cursor, hcursor ▸ hpast.token, htoken ▸ hpast.lastStop⟩
  refine ⟨properties, s₁, s₂, (gives_expectSign hopening).2, (listed_commaList hproperties).1,
    hbrace, hpast, ?_⟩
  rw [hpast.lastStop]

theorem gives_primary_of_leftParen (hs : s.token.kind = .sign .leftParen)
    (h : Gives (g.primary ctx) s e s') : Gives (g.parenthesized ctx) s e s' := by
  unfold primary at h
  rw [gives_bind_start, gives_bind_kind, hs] at h
  exact h

theorem gives_primary_of_leftBrace (hs : s.token.kind = .sign .leftBrace)
    (h : Gives (g.primary ctx) s e s') : Gives (g.object ctx) s e s' := by
  unfold primary at h
  rw [gives_bind_start, gives_bind_kind, hs] at h
  exact h

end Rules

open Parse

/-- An expression at the start of a text has been read there. -/
theorem Expr.exists_gives_of_ofText {t : Text} {e : Expr t} (h : Expr.ofText t = .ok e) :
    ∃ s', Gives ((rules (levels t)).expression Context.module) (State.ofText t) e s' := by
  unfold Expr.ofText at h
  split at h
  · cases h
  · next e' s' hgives =>
    split at h
    · cases h
      exact ⟨s', hgives⟩
    · cases h

/-- An object literal between parentheses at the start of a text is made of the entries from behind
its first brace up to its last one, and behind that one stands the closing parenthesis. -/
theorem Expr.exists_listed_of_ofText {t : Text} {e : Expr t} {span : Span}
    {properties : List (Property t)} (he : Expr.ofText t = .ok e)
    (hobject : e.unparenthesized = .object span properties)
    (hparen : (State.ofText t).token.kind = .sign .leftParen)
    (hbrace : ∀ s₁, (State.ofText t).Past s₁ → s₁.token.kind = .sign .leftBrace) :
    ∃ (g : Rules t) (ctx : Context) (s₁ s₂ s₃ s₄ : State t), (State.ofText t).Past s₁ ∧
      s₁.Past s₂ ∧ Listed (g.entry ctx) s₂ properties s₃ ∧ s₃.token.kind = .sign .rightBrace ∧
      span = ⟨s₁.token.start, s₃.token.stop⟩ ∧ s₄.lastStop = s₃.token.stop ∧
      s₄.token.kind = .sign .rightParen ∧
      e = .parenthesized ⟨(State.ofText t).token.start, s₄.token.stop⟩
        (.object span properties) := by
  have henclosed : e.isEnclosed = true := by
    cases e with
    | object | parenthesized => rfl
    | _ => cases hobject
  obtain ⟨_, hexpression⟩ := exists_gives_of_ofText he
  obtain ⟨_, hassignment, -⟩ := Rules.beginsWith_expression _ _ _ hexpression henclosed
  obtain ⟨m, hassignment⟩ := Rules.exists_readAssignment hassignment
  obtain ⟨_, hprimary, -⟩ := Rules.beginsWith_readAssignment _ _ _ hassignment henclosed
  obtain ⟨_, inner, rfl, hinner⟩ :=
    Rules.gives_parenthesized (Rules.gives_primary_of_leftParen hparen hprimary)
  obtain rfl : inner = .object span properties := hobject
  obtain ⟨s₁, s₄, hpast, hliteral, hclosing, rfl⟩ := hinner rfl
  obtain ⟨m', hliteral⟩ := Rules.exists_readAssignment hliteral
  obtain ⟨_, hbraces, hplace⟩ := Rules.beginsWith_readAssignment _ _ _ hliteral rfl
  obtain ⟨properties', s₂, s₃, hopening, hlisted, hlast, hbehind, hspan⟩ :=
    Rules.gives_object (Rules.gives_primary_of_leftBrace (hbrace s₁ hpast) hbraces)
  cases hspan
  exact ⟨rules m', _, s₁, s₂, s₃, s₄, hpast, hopening, hlisted, hlast, rfl,
    hplace.lastStop.trans hbehind.lastStop, hclosing, rfl⟩

end BoundTemplate.Script
