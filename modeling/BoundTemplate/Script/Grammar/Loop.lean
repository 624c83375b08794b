import BoundTemplate.Script.Grammar.Declaration

/-!
# Loops with a head

A loop either counts, with three parts in its head, or runs over values or keys.
Only what stands behind the first part of the head tells which.
-/

namespace BoundTemplate.Script.Rules

open Parse

variable {script : Text}

/-- The rest of a loop that counts, read behind the first part of its head. `start` is the offset of
the loop, and `missing` what its variables lack. -/
def countedLoop (g : Rules script) (ctx : Context) (start : Nat) (awaited : Bool)
    (missing : List Diagnostic) : Parse script Unit := do
  expectSign .semicolon
  missing.forM fun d => report d.problem d.offset
  if !(← atSign .semicolon) && !(← atSign .rightParen) then discard (g.expression ctx)
  expectSign .semicolon
  if !(← atSign .rightParen) then discard (g.expression ctx)
  expectSign .rightParen
  if awaited then report .awaitLoop start
  g.statement ctx .single

/-- The rest of a loop over values or keys, read at the word that says which. -/
def iteratedLoop (g : Rules script) (ctx : Context) (start : Nat) (awaited : Bool) :
    Parse script Unit := do
  let overKeys ← atWord "in"
  advance
  if overKeys then discard (g.expression ctx) else discard (g.assignment ctx)
  expectSign .rightParen
  if awaited && overKeys then report .awaitLoop start
  g.statement ctx .single

/-- Whether a loop runs over values or keys. -/
def atIteration : Parse script Bool := do
  let k ← kind
  return k == .word "of" || k == .word "in"

/-- Whether a declaration of variables starts the head of a loop. -/
def atLoopVariables : Parse script Bool := do
  match ← kind with
  | .word "var" | .word "const" => return true
  | .word "let" =>
    nextToken fun t =>
      (t.kind.isPropertyName && t.kind != .word "in") || t.kind == .sign .leftBracket ||
        t.kind == .sign .leftBrace
  | _ => return false

/-- Whether a declaration of resources starts the head of a loop. -/
def atLoopResources : Parse script Bool := do
  if ← atUsing then nextToken fun t => t.kind != .word "of"
  else atAwaitUsing

/-- A loop whose head starts with a declaration of resources. -/
def resourceLoop (g : Rules script) (ctx : Context) (start : Nat) (awaited : Bool) :
    Parse script Unit := do
  let first ← Parse.start
  let awaitsEnd ← atWord "await"
  g.resources ctx.withoutIn true
  if ← atWord "in" then report (.usingOverKeys awaitsEnd) first
  if ← atIteration then g.iteratedLoop ctx start awaited
  else g.countedLoop ctx start awaited []

/-- A loop whose head starts with an expression. A loop over values does not start with a word that
would declare its variable. -/
def targetLoop (g : Rules script) (ctx : Context) (start : Nat) (awaited : Bool) :
    Parse script Unit := do
  let t ← token
  let e ← g.expression ctx.withoutIn
  if ← atIteration then
    if ← atWord "of" then
      if t.kind == .word "async" && isName e && !awaited then report (.loopTarget "async") t.start
      if t.kind == .word "let" then report (.loopTarget "let") t.start
    let commas := (← get).commas
    asPattern fun check => e.checkPattern commas check
    g.iteratedLoop ctx start awaited
  else g.countedLoop ctx start awaited []

/-- A loop with a head, read at its word. -/
def headedLoop (g : Rules script) (ctx : Context) : Parse script Unit := do
  let first ← start
  advance
  let awaited ← atWord "await"
  if awaited then
    if !ctx.inAwait then report .awaitOutside (← start)
    advance
  expectSign .leftParen
  if (← atSign .semicolon) || (← atSign .rightParen) then g.countedLoop ctx first awaited []
  else if ← atLoopVariables then
    let missing ← g.variableList ctx.withoutIn true
    if ← atIteration then g.iteratedLoop ctx first awaited
    else g.countedLoop ctx first awaited missing
  else if ← atLoopResources then g.resourceLoop ctx first awaited
  else g.targetLoop ctx first awaited

end BoundTemplate.Script.Rules
