import BoundTemplate.Script.Grammar.Modifier

/-!
# Declared names and patterns

What a declaration or a parameter introduces: a name, or a pattern of names with
values to fall back on. A rest element comes last and has no such value.
-/

namespace BoundTemplate.Script.Rules

open Parse

variable {script : Text}

/-- Reports a name that is an operator in its context. -/
def checkName (ctx : Context) : Parse script Unit := do
  let t ← token
  if ctx.inAwait && t.kind == .word "await" then
    report (.operatorAsName "await" "an async") t.start
  if ctx.inYield && t.kind == .word "yield" then
    report (.operatorAsName "yield" "a generator") t.start

/-- A declared name. -/
def declaredName (ctx : Context) : Parse script Unit := do
  let t ← token
  if t.kind.isReserved then fail (.reservedName t.kind.text) t.start
  if !t.kind.isIdentifier then unexpected
  checkName ctx
  pass

/-- A value to fall back on, if there is one. -/
def fallback (g : Rules script) (ctx : Context) : Parse script Bool := do
  if ← eatSign .assign then
    discard (g.assignment ctx.withIn)
    return true
  return false

/-- A pattern and a value to fall back on. -/
def patternWithFallback (g : Rules script) (ctx : Context) : Parse script Unit := do
  g.pattern ctx
  discard (g.fallback ctx)

/-- Whether a pattern that is more than a name starts here. -/
def atPattern : Parse script Bool := do
  let k ← kind
  return k == .sign .leftBrace || k == .sign .leftBracket

/-- A rest element, if one starts here, and its offset. It may have to be a name. -/
def restElement? (g : Rules script) (ctx : Context) (named : Bool) : Parse script (Option Nat) := do
  let first ← start
  if !(← eatSign .ellipsis) then return none
  let inside ← start
  let isPattern ← atPattern
  g.pattern ctx
  if ← g.fallback ctx then report .restInitialiser inside
  if named && isPattern then report .restPattern inside
  return some first

/-- How many elements a list has apart from a rest element, and where that one starts. -/
abbrev ElementCount := Nat × Option Nat

/-- The elements of a list up to its closing sign. A reader of an element returns where it starts if
it is a rest element, which has to be the last one. -/
def patternList (closer : Sign) (restProblem : Problem) (element : Parse script (Option Nat)) :
    Parse script ElementCount := do
  let counts ← loop ((true, 0, none) : Bool × ElementCount) fun (isFirst, count, rest?) => do
    let t ← token
    if t.kind == .sign closer || t.kind.isMissing then return .inr (count, rest?)
    if !isFirst then
      if t.kind != .sign .comma then fail (.separatorExpected closer.text t.kind.text) t.start
      advance
      if ← atSign closer then
        if rest?.isSome then report .restComma t.start
        return .inr (count, rest?)
    if let some offset := rest? then fail restProblem offset
    match ← element with
    | some offset => return .inl (false, count, some offset)
    | none => return .inl (false, count + 1, none)
  expectSign closer
  return counts

/-- An entry of an object pattern. -/
def patternEntry (g : Rules script) (ctx : Context) : Parse script Unit := do
  let isName := (← kind).isIdentifier
  discard (g.key ctx)
  if isName && !(← atSign .colon) then discard (g.fallback ctx)
  else
    expectSign .colon
    g.patternWithFallback ctx

/-- An entry or the rest element of an object pattern; what is left of an object gets a name. -/
def objectElement (g : Rules script) (ctx : Context) : Parse script (Option Nat) := do
  match ← g.restElement? ctx true with
  | some offset => return some offset
  | none =>
    g.patternEntry ctx
    return none

/-- An element, a hole or the rest element of an array pattern. -/
def arrayElement (g : Rules script) (ctx : Context) : Parse script (Option Nat) := do
  if ← atSign .comma then return none
  match ← g.restElement? ctx false with
  | some offset => return some offset
  | none =>
    g.patternWithFallback ctx
    return none

/-- A declared name or pattern. -/
def readPattern (g : Rules script) (ctx : Context) : Parse script Unit := do
  match ← kind with
  | .sign .leftBrace =>
    advance
    discard (patternList .rightBrace .restNotLast (g.objectElement ctx))
  | .sign .leftBracket =>
    advance
    discard (patternList .rightBracket .restNotLast (g.arrayElement ctx))
  | _ => declaredName ctx

/-- A parameter; only those of a member of a class may be decorated, and none has modifiers. -/
def parameter (g : Rules script) (ctx : Context) (inClass : Bool) : Parse script (Option Nat) := do
  let decorators ← g.decorators ctx
  if !inClass then refuseDecorators decorators
  if let m :: _ ← modifiers false then report .parameterModifier m.start
  match ← g.restElement? ctx false with
  | some offset => return some offset
  | none =>
    g.patternWithFallback ctx
    return none

/-- The parameters of a function, with their parentheses. -/
def parameters (g : Rules script) (ctx : Context) (inClass : Bool) : Parse script ElementCount := do
  expectSign .leftParen
  patternList .rightParen .restParameterNotLast (g.parameter ctx inClass)

end BoundTemplate.Script.Rules
