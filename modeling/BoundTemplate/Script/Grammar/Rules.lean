import BoundTemplate.Script.Parse

/-!
# The rules that other rules refer to

The grammar is recursive in a few rules only. `Rules` holds them as readers for
what is nested one level deeper, so that every rule of the grammar is a plain
definition over the rules below it; `Script.Grammar` ties the knot.
-/

namespace BoundTemplate.Script

/-- Where a statement stands. -/
inductive Place where
  /-- In a list of statements, where declarations may stand as well. -/
  | list
  /-- Alone, as a part of another statement. -/
  | single
  deriving DecidableEq, Repr

/-- The readers of what is nested in a rule. -/
structure Rules (script : Text) where
  /-- An expression without a comma at its top. -/
  assignment : Context → Parse script (Expr script)
  /-- An operation whose operators bind more tightly than a given level. -/
  operation : Context → Nat → Parse script (Expr script)
  /-- An operand with its operator words and signs in front, as a part of an operation that starts
  at an offset. -/
  unary : Context → Nat → Parse script (Expr script)
  /-- An operand with its members and calls. -/
  access : Context → Parse script (Expr script)
  /-- An operand with its members, as it is constructed. -/
  constructed : Context → Parse script (Expr script)
  /-- What is declared. -/
  pattern : Context → Parse script Unit
  /-- A statement. -/
  statement : Context → Place → Parse script Unit
  /-- A type. -/
  type : Context → Parse script Unit
  /-- An element of a markup language, up to its last sign, which stays. -/
  markup : Context → Parse script Unit

namespace Rules

open Parse

variable {script : Text}

/-- The rules that refuse to go any deeper. -/
def tooDeep : Rules script where
  assignment _ := do fail .tooDeep (← start)
  operation _ _ := do fail .tooDeep (← start)
  unary _ _ := do fail .tooDeep (← start)
  access _ := do fail .tooDeep (← start)
  constructed _ := do fail .tooDeep (← start)
  pattern _ := do fail .tooDeep (← start)
  statement _ _ := do fail .tooDeep (← start)
  type _ := do fail .tooDeep (← start)
  markup _ := do fail .tooDeep (← start)

/-- An expression: assignments with commas between them. -/
def expression (g : Rules script) (ctx : Context) : Parse script (Expr script) := do
  let first ← start
  let ctx := { ctx with decorating := false }
  let e ← g.assignment ctx
  if !(← atSign .comma) then return e
  loop () fun _ => do
    if ← eatSign .comma then
      discard (g.assignment ctx)
      return .inl ()
    return .inr (.other (← spanFrom first))

/-- An expression between brackets, read behind the opening one. -/
def bracketed (g : Rules script) (ctx : Context) : Parse script Unit := do
  discard (g.expression ctx.withIn)
  expectSign .rightBracket

/-- Stops at a number that lacks digits. -/
def checkNumber (t : Token script) : Parse script Unit :=
  match t.kind with
  | .number _ _ false => fail .numberValue t.start
  | _ => return

/-- The key of a property. -/
def key (g : Rules script) (ctx : Context) : Parse script (Key script) := do
  let t ← token
  let span : Span := ⟨t.start, t.stop⟩
  match h : t.kind with
  | .string =>
    advance
    return ⟨.string, span, fun _ => t.quoted h⟩
  | .number _ big _ =>
    checkNumber t
    advance
    return ⟨if big then .bigNumber else .number, span, by split <;> nofun⟩
  | .sign .leftBracket =>
    advance
    let e ← g.assignment ctx.withIn
    expectSign .rightBracket
    return ⟨.computed, e.span, nofun⟩
  | k =>
    if !k.isPropertyName then unexpected
    pass
    return ⟨.name, span, nofun⟩

/-- The arguments of a call, with their parentheses. -/
def arguments (g : Rules script) (ctx : Context) : Parse script Unit := do
  expectSign .leftParen
  discard <| commaList .rightParen do
    discard (eatSign .ellipsis)
    discard (g.assignment ctx.withIn)
  expectSign .rightParen

/-- A part of a template; outside of a tagged one its escape sequences have to be right. -/
def templatePart (tagged : Bool) : Parse script TemplatePart := do
  let t ← token
  match t.kind with
  | .template part sound =>
    if !sound && !tagged then report .templateEscape (t.start + 1)
    pass
    return part
  | _ => unexpected

/-- Reads the brace that ends a hole of a template together with the part of the template behind
it. -/
def rereadTemplate : Parse script Unit := do
  if ← atSign .rightBrace then
    modify fun s =>
      let read := s.cursor.readTemplate .tail .middle s.token.start true
      let delimited := s.cursor.isDelimited_readTemplate .tail .middle s.token.start true
      s.reread read.1 read.2 (by rintro h; rw [h] at delimited; cases delimited)
        (by rintro sign h; rw [h] at delimited; cases delimited)

/-- A template with its holes. -/
def template (g : Rules script) (ctx : Context) (tagged : Bool) : Parse script Unit := do
  match ← templatePart tagged with
  | .head =>
    loop () fun _ => do
      discard (g.expression ctx.withIn)
      rereadTemplate
      match ← kind with
      | .template .tail _ =>
        discard (templatePart tagged)
        return .inr ()
      | .template .middle _ =>
        discard (templatePart tagged)
        return .inl ()
      | k => fail (.tokenExpected (Kind.template .tail true).text k.text) (← start)
  | _ => return

/-- Whether the current token starts a template. -/
def atTemplate : Parse script Bool := do
  match ← kind with
  | .template .whole _ | .template .head _ => return true
  | _ => return false

/-- Whether an expression is an optional chain. -/
def isChain : Expr script → Bool
  | .chain _ => true
  | _ => false

/-- Decorators, each a member or a call behind its sign, and where they start. A decorator may not
be left out, so it is no optional chain. -/
def decorators (g : Rules script) (ctx : Context) : Parse script (List Nat) :=
  loop [] fun starts => do
    let first ← start
    if ← eatSign .atSign then
      let e ← g.access { ctx with decorating := true }
      if isChain e then report .decoratorChain e.span.start
      return .inl (first :: starts)
    return .inr starts.reverse

/-- Reports decorators where nothing is decorated. -/
def refuseDecorators (starts : List Nat) : Parse script Unit :=
  starts.forM fun start => report .misplacedDecorator start

end Rules

end BoundTemplate.Script
