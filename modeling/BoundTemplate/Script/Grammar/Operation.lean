import BoundTemplate.Script.Grammar.Primary
import BoundTemplate.Script.Grammar.Markup

/-!
# Members, calls and operators

Members and calls bind most tightly, then the operators in front of an operand
and behind it, then the operators between two operands, level by level.
-/

namespace BoundTemplate.Script.Rules

open Parse

variable {script : Text}

/-- An operand together with whether it belongs to an optional chain. -/
abbrev Chained (script : Text) := Expr script × Bool

/-- The name of a member, read behind its dot. -/
def memberName : Parse script Unit := do
  let k ← kind
  if k == .privateName || k.isPropertyName then pass else unexpected

/-- A template behind its tag, which may not belong to an optional chain. -/
def taggedTemplate (g : Rules script) (ctx : Context) (start : Nat) (chain : Bool) :
    Parse script (Expr script) := do
  let first ← Parse.start
  g.template ctx true
  if chain then report .taggedOptionalChain first
  return .other (← spanFrom start)

/-- The members behind an operand that starts at an offset; where no optional chain may stand, they
end in front of one. -/
def members (g : Rules script) (ctx : Context) (start : Nat) (mayChain : Bool)
    (operand : Chained script) : Parse script (Chained script) :=
  loop operand fun (e, chain) => do
    match ← kind with
    | .sign .dot =>
      advance
      memberName
      return .inl (.member (← spanFrom start), chain)
    | .sign .questionDot =>
      if !mayChain then return .inr (e, chain)
      if ← nextToken fun t => t.kind == .sign .leftBracket && !ctx.decorating then
        advance
        advance
        g.bracketed ctx
        return .inl (.member (← spanFrom start), true)
      if ← nextToken fun t => t.kind == .privateName || t.kind.isLiteralKey then
        advance
        memberName
        return .inl (.member (← spanFrom start), true)
      return .inr (e, chain)
    | .sign .leftBracket =>
      if ctx.decorating then return .inr (e, chain)
      advance
      g.bracketed ctx
      return .inl (.member (← spanFrom start), chain)
    | .template .whole _ | .template .head _ =>
      return .inl (← g.taggedTemplate ctx start chain, chain)
    | _ => return .inr (e, chain)

/-- The members and calls behind an operand that starts at an offset. -/
def calls (g : Rules script) (ctx : Context) (start : Nat) (operand : Chained script) :
    Parse script (Chained script) :=
  loop operand fun operand => do
    let (e, chain) ← g.members ctx start true operand
    let mark ← Parse.start
    let optional ← eatSign .questionDot
    let chain := chain || optional
    if optional && (← atTemplate) then return .inl (← g.taggedTemplate ctx start true, chain)
    if ← atSign .leftParen then
      g.arguments { ctx with decorating := false }
      return .inl (.other (← spanFrom start), chain)
    if optional then fail .memberExpected mark
    return .inr (e, chain)

/-- An operand with its members and calls; an optional chain cannot be assigned to. -/
def readAccess (g : Rules script) (ctx : Context) : Parse script (Expr script) := do
  let first ← start
  let e ← g.primary ctx
  let (e, chain) ← g.calls ctx first (e, false)
  return if chain then .chain e.span else e

/-- What is constructed: an operand with its members, but without calls. -/
def readConstructed (g : Rules script) (ctx : Context) : Parse script (Expr script) := do
  let first ← start
  let e ← g.primary ctx
  let (e, _) ← g.members ctx first false (e, false)
  return e

/-- The words that stand between two expressions, also behind `await` or `yield` as a name. -/
def joiningWords : List String := ["in", "instanceof", "of"]

/-- Whether a token starts what follows `await` or `yield` where they are no operators. -/
def startsOperand (t : Token script) : Bool :=
  match t.kind with
  | .word w => !joiningWords.contains w && !t.onNewLine
  | k => (k.isLiteral || k.isPropertyName) && !t.onNewLine

/-- Whether the current token is `await` as an operator. -/
def atAwait (ctx : Context) : Parse script Bool := do
  if !(← atWord "await") then return false
  if ctx.inAwait then return true
  nextToken fun t => startsOperand t || (t.kind == .sign .slash && !t.onNewLine)

/-- An operand and the operator `++` or `--` in front of it or behind it on the same line, as a part
of an operation that starts at an offset. -/
def update (g : Rules script) (ctx : Context) (first : Nat) : Parse script (Expr script) := do
  let k ← kind
  if k == .sign .increment || k == .sign .decrement then
    advance
    let e ← g.unary ctx first
    asPattern fun check => e.checkSimple e.span check
    return .other (← spanFrom first)
  let e ← g.readAccess ctx
  let t ← token
  if (t.kind == .sign .increment || t.kind == .sign .decrement) && !t.onNewLine then
    advance
    asPattern fun check => e.checkSimple e.span check
    return .other (← spanFrom first)
  return e

/-- Stops at an angle where an operand is expected, and says so if a whole element of a markup
language stands there. -/
def refuseAngle {α : Type} (g : Rules script) (ctx : Context) : Parse script α := do
  match ← lookahead (g.markup ctx) with
  | some _ => fail .markupExpression (← start)
  | none => unexpected

/-- Whether a kind is an operator that stands in front of its operand. -/
def isUnaryOperator : Kind → Bool
  | .sign .plus | .sign .minus | .sign .complement | .sign .not => true
  | .word w => w == "delete" || w == "void" || w == "typeof"
  | _ => false

/-- An operand with its operator words and signs in front, as a part of an operation that starts at
an offset. -/
def readUnary (g : Rules script) (ctx : Context) (first : Nat) : Parse script (Expr script) := do
  if isUnaryOperator (← kind) then
    advance
    discard (g.unary ctx (← start))
    return .unary (← spanFrom first)
  if ← atSign .less then g.refuseAngle ctx
  if ← atAwait ctx then
    if !ctx.inAwait then report .awaitOutside (← start)
    advance
    discard (g.unary { ctx with inAwait := true } first)
    return .unary (← spanFrom first)
  g.update ctx first

/-- Reads a `>` together with what makes a longer operator of it. -/
def rereadAngle : Parse script Unit :=
  modify fun s =>
    if h : s.token.kind = .sign .greater then
      s.reread (.sign s.cursor.angledSign) s.cursor.behindAngled nofun
        (by rintro _ ⟨⟩; exact Cursor.holds_angled s.behind (s.token.spelled _ h))
    else s

/-- The level of an operator between two operands; higher levels bind more tightly. -/
def level? : Kind → Option Nat
  | .sign .questionQuestion => some 1
  | .sign .orOr => some 2
  | .sign .andAnd => some 3
  | .sign .or => some 4
  | .sign .xor => some 5
  | .sign .and => some 6
  | .sign .equalEqual | .sign .notEqual | .sign .equalEqualEqual | .sign .notEqualEqual => some 7
  | .sign .less | .sign .greater | .sign .lessEqual | .sign .greaterEqual => some 8
  | .word "in" | .word "instanceof" | .word "as" | .word "satisfies" => some 8
  | .sign .shiftLeft | .sign .shiftRight | .sign .shiftRightUnsigned => some 9
  | .sign .plus | .sign .minus => some 10
  | .sign .star | .sign .slash | .sign .percent => some 11
  | .sign .power => some 12
  | _ => none

/-- The level of `in` and of comparisons. -/
def relationLevel : Nat := 8

/-- The level of powers, which associate to the right. -/
def powerLevel : Nat := 12

/-- Whether an operation is a logical one other than coalescing. -/
def isAndOr : Expr script → Bool
  | .logical _ coalescing => !coalescing
  | _ => false

/-- Whether an operation is a logical one. -/
def isLogical : Expr script → Bool
  | .logical _ _ => true
  | _ => false

/-- Whether an operation is a unary one. -/
def isUnary : Expr script → Bool
  | .unary _ => true
  | _ => false

/-- An operand of an operation, and whether it starts with a parenthesis. -/
abbrev Operand (script : Text) := Expr script × Bool

/-- Whether coalescing two operands mixes it with another logical operator. A logical operation on
the right hides the one on the left, and a parenthesis in front settles the matter. -/
def mixesCoalescing (left right : Operand script) : Bool :=
  let (e, wrapped) := if isLogical right.1 then right else left
  isAndOr e && !wrapped

/-- The operation of two operands, with what is wrong with it. -/
def combine (operator : Kind) (start : Nat) (left right : Operand script) :
    Parse script (Expr script) := do
  let span ← spanFrom start
  match operator with
  | .sign .questionQuestion =>
    if mixesCoalescing left right then report .mixedCoalescing start
    return .logical span true
  | .sign .orOr | .sign .andAnd => return .logical span false
  | .sign .power =>
    if isUnary left.1 then report .powerOfUnary left.1.span.start
    return .other span
  | _ => return .other span

/-- A type behind the operator word that asserts it. -/
def assertion (g : Rules script) (ctx : Context) (start : Nat) (satisfying : Bool) :
    Parse script (Expr script) := do
  advance
  g.type ctx
  report (.typeOperator satisfying) start
  return .asserted (← spanFrom start)

/-- The operators behind an operand that bind more tightly than a level, with their operands. -/
def operators (g : Rules script) (ctx : Context) (level start : Nat) (left : Operand script) :
    Parse script (Expr script) :=
  loop left.1 fun e => do
    rereadAngle
    let k ← kind
    match level? k with
    | none => return .inr e
    | some l =>
      if (if l == powerLevel then l < level else l ≤ level) ||
          (k == .word "in" && !ctx.allowIn) then
        return .inr e
      if k == .word "as" || k == .word "satisfies" then
        if (← token).onNewLine then return .inr e
        return .inl (← g.assertion ctx start (k == .word "satisfies"))
      advance
      let wrapped ← atSign .leftParen
      let right ← g.operation ctx l
      return .inl (← combine k start (e, left.2) (right, wrapped))

/-- A private name and the object in which it is looked up. -/
def lookedUp (g : Rules script) (ctx : Context) (level : Nat) : Parse script (Expr script) := do
  let first ← start
  pass
  if relationLevel ≤ level then fail .lonePrivateName first
  expectWord "in"
  discard (g.operation ctx relationLevel)
  return .other (← spanFrom first)

/-- An operation whose operators bind more tightly than a level. -/
def readOperation (g : Rules script) (ctx : Context) (level : Nat) :
    Parse script (Expr script) := do
  let first ← start
  let wrapped ← atSign .leftParen
  let left ← if ctx.allowIn && (← kind) == .privateName then g.lookedUp ctx level
    else g.readUnary ctx first
  g.operators ctx level first (left, wrapped)

end BoundTemplate.Script.Rules
