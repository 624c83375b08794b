import BoundTemplate.Script.Grammar.Operation

/-!
# Assignments, conditions and arrow functions

The loosest rules of an expression without a comma. Whether parentheses start an
arrow function is decided by the first tokens where that is possible, and by
trying to read its head where it is not.
-/

namespace BoundTemplate.Script.Rules

open Parse

variable {script : Text}

/-- How likely parentheses are the parameters of an arrow function. -/
inductive Likelihood where
  | no
  | maybe
  | yes
  deriving DecidableEq, Repr

/-- The likelihood by what follows a rest sign behind an opening parenthesis. -/
def restLikelihood : Kind → Likelihood
  | .name => .yes
  | k => if k.isLiteral then .no else .maybe

/-- The likelihood by what follows a name behind an opening parenthesis; with a question mark, by
the token behind it as well. -/
def nameLikelihood (third fourth : Kind) : Likelihood :=
  match third with
  | .sign .colon => .yes
  | .sign .question =>
    match fourth with
    | .sign .colon | .sign .comma | .sign .assign | .sign .rightParen => .yes
    | _ => .no
  | .sign .comma | .sign .assign | .sign .rightParen => .maybe
  | _ => .no

/-- The likelihood by the tokens behind an opening parenthesis. A modifier in front of a name is
taken for a parameter, so that it is refused as one. -/
def parenLikelihood : Parse script Likelihood := do
  let second ← kind
  match second with
  | .sign .rightParen =>
    pass
    match ← kind with
    | .sign .arrow | .sign .leftBrace => return .yes
    | _ => return .no
  | .sign .leftBracket | .sign .leftBrace => return .maybe
  | .sign .ellipsis =>
    pass
    return restLikelihood (← kind)
  | _ =>
    pass
    let third ← kind
    if Modifier.words.contains second.text && second != .word "async" && third.isIdentifier then
      return if third == .word "as" then .no else .yes
    if !second.isIdentifier && second != .word "this" then return .no
    pass
    return nameLikelihood third (← kind)

/-- The likelihood by the current token and those behind it. -/
def arrowLikelihood : Parse script Likelihood := do
  if ← atWord "async" then
    pass
    let t ← token
    if t.onNewLine || t.kind != .sign .leftParen then return .no
    pass
    parenLikelihood
  else if ← atSign .leftParen then
    pass
    parenLikelihood
  else return .no

/-- An arrow, which stands on the line of the parameters in front of it. -/
def arrow : Parse script Unit := do
  let t ← token
  if t.onNewLine then report .lineBeforeArrow t.start
  expectSign .arrow

/-- The head of an arrow function with parentheses, and whether the function is asynchronous. -/
def arrowHead (g : Rules script) (ctx : Context) : Parse script Bool := do
  let isAsync ← eatWord "async"
  discard (g.parameters { ctx with inAwait := ctx.inAwait || isAsync } false)
  arrow
  return isAsync

/-- The body of an arrow function that starts at an offset. -/
def arrowBody (g : Rules script) (ctx : Context) (start : Nat) (isAsync : Bool) :
    Parse script (Expr script) := do
  let ctx := { ctx with inAwait := isAsync, inYield := false, mayReturn := true }
  if ← atSign .leftBrace then g.block ctx else discard (g.assignment ctx)
  return .other (← spanFrom start)

/-- An arrow function with parentheses, if one starts here. -/
def arrowFunction? (g : Rules script) (ctx : Context) : Parse script (Option (Expr script)) := do
  let first ← start
  match (← lookahead arrowLikelihood).getD .no with
  | .no => return none
  | .yes =>
    let isAsync ← g.arrowHead ctx
    return some (← g.arrowBody ctx first isAsync)
  | .maybe =>
    let head : Parse script Bool := do
      let isAsync ← g.arrowHead ctx
      if (← kind).isMissing then unexpected
      return isAsync
    match ← attempt head with
    | none => return none
    | some isAsync => return some (← g.arrowBody ctx first isAsync)

/-- Whether an asynchronous arrow function of a single name starts here. -/
def atAsyncName : Parse script Bool := do
  if !(← atWord "async") then return false
  let found ← lookahead do
    pass
    let name ← token
    pass
    let t ← token
    return name.kind.isIdentifier && !name.onNewLine && t.kind == .sign .arrow && !t.onNewLine
  return found.getD false

/-- Whether the current token is `yield` as an operator. -/
def atYield (ctx : Context) : Parse script Bool := do
  if !(← atWord "yield") then return false
  if ctx.inYield then return true
  nextToken startsOperand

/-- Whether nothing that is yielded can start with a kind. -/
def endsYield : Kind → Bool
  | .eof | .sign .semicolon | .sign .rightBrace | .sign .rightParen | .sign .rightBracket
  | .sign .colon | .sign .comma => true
  | _ => false

/-- The operator `yield` and what it yields. -/
def yielded (g : Rules script) (ctx : Context) : Parse script (Expr script) := do
  let first ← start
  advance
  if !ctx.inYield then report .yieldOutside first
  let t ← token
  if !t.onNewLine then
    let delegates ← eatSign .star
    if delegates || !endsYield (← kind) then
      discard (g.assignment { ctx with inYield := true })
  return .other (← spanFrom first)

/-- Whether a kind assigns, and whether it does nothing else. -/
def assigns? : Kind → Option Bool
  | .sign .assign => some true
  | .sign .plusAssign | .sign .minusAssign | .sign .starAssign | .sign .slashAssign
  | .sign .percentAssign | .sign .powerAssign | .sign .shiftLeftAssign | .sign .shiftRightAssign
  | .sign .shiftRightUnsignedAssign | .sign .andAssign | .sign .orAssign | .sign .xorAssign
  | .sign .andAndAssign | .sign .orOrAssign | .sign .coalesceAssign => some false
  | _ => none

/-- An assignment to an operation that was read from an offset on. -/
def assigned (g : Rules script) (ctx : Context) (start : Nat) (target : Expr script)
    (plain : Bool) : Parse script (Expr script) := do
  let commas := (← get).commas
  asPattern fun check => target.checkPattern commas check
  advance
  discard (g.assignment ctx)
  return .assignment (← spanFrom start) plain

/-- The rest of a conditional expression behind its condition, or the condition alone. -/
def conditional (g : Rules script) (ctx : Context) (start : Nat) (condition : Expr script) :
    Parse script (Expr script) := do
  if !(← eatSign .question) then return condition
  discard (g.assignment ctx.withIn)
  expectSign .colon
  discard (g.assignment ctx)
  return .other (← spanFrom start)

/-- Whether an expression is a name. -/
def isName : Expr script → Bool
  | .identifier _ => true
  | _ => false

/-- An expression without a comma at its top. -/
def readAssignment (g : Rules script) (ctx : Context) : Parse script (Expr script) := do
  if ← atYield ctx then return ← g.yielded ctx
  let first ← start
  if let some e ← g.arrowFunction? ctx then return e
  if ← atAsyncName then
    advance
    if !isName (← g.readOperation ctx 0) then unexpected
    arrow
    return ← g.arrowBody ctx first true
  let e ← g.readOperation ctx 0
  let k ← kind
  if isName e && k == .sign .arrow then
    arrow
    return ← g.arrowBody ctx first false
  match assigns? k with
  | some plain => g.assigned ctx first e plain
  | none => g.conditional ctx first e

end BoundTemplate.Script.Rules
