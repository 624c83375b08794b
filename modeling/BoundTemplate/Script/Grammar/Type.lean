import BoundTemplate.Script.Grammar.Pattern

/-!
# Types

A type may be asserted of an expression or stand among the arguments of a class.
Types are read to find where they end; nothing of them is kept.
-/

namespace BoundTemplate.Script.Rules

open Parse

variable {script : Text}

/-- Types between angles, behind which more may follow. -/
def typeArguments (g : Rules script) (ctx : Context) : Parse script Unit := do
  expectSign .less
  discard (commaList .greater (g.type ctx))
  expectSign .greater

/-- Arguments of a type, if some follow. -/
def typeArguments? (g : Rules script) (ctx : Context) : Parse script Unit := do
  if ← atSign .less then g.typeArguments ctx

/-- Any word or name, passed. -/
def anyName : Parse script Unit := do
  if !(← kind).isPropertyName then unexpected
  pass

/-- Names with dots between them. -/
def dottedName : Parse script Unit := do
  anyName
  loop () fun _ => do
    if ← eatSign .dot then
      anyName
      return .inl ()
    return .inr ()

/-- A type that is referred to by its name, with arguments on the same line. -/
def namedType (g : Rules script) (ctx : Context) : Parse script Unit := do
  dottedName
  if !(← token).onNewLine then g.typeArguments? ctx

/-- An element of a tuple: a type with a name or without, which may be optional or a rest. -/
def tupleElement (g : Rules script) (ctx : Context) : Parse script Unit := do
  discard (eatSign .ellipsis)
  let named ← lookahead do
    anyName
    discard (eatSign .question)
    expectSign .colon
  if named.isSome then
    anyName
    discard (eatSign .question)
    expectSign .colon
  g.type ctx
  discard (eatSign .question)

/-- A member of an object type: a key that may be optional, and parameters for a method. -/
def typeMember (g : Rules script) (ctx : Context) : Parse script Unit := do
  discard (modifiers false)
  if !(← atSign .leftParen) then
    discard (g.key ctx)
    discard (eatSign .question)
  if ← atSign .leftParen then discard (g.parameters ctx false)
  if !(← eatSign .comma) then endStatement

/-- Whether parentheses that start here are the parameters of a function type. -/
def atFunctionType (g : Rules script) (ctx : Context) : Parse script Bool := do
  if !(← atSign .leftParen) then return false
  let found ← lookahead do
    pass
    let k ← kind
    if k == .sign .rightParen || k == .sign .ellipsis then return true
    discard (modifiers false)
    g.pattern ctx
    match ← kind with
    | .sign .colon | .sign .comma | .sign .question | .sign .assign => return true
    | .sign .rightParen => nextToken (·.kind == .sign .arrow)
    | _ => return false
  return found.getD false

/-- The type of a function, with its result. -/
def functionType (g : Rules script) (ctx : Context) : Parse script Unit := do
  discard (g.parameters ctx false)
  expectSign .arrow
  g.type ctx

/-- The type of a template, with types in its holes. -/
def templateType (g : Rules script) (ctx : Context) : Parse script Unit := do
  match ← templatePart true with
  | .head =>
    loop () fun _ => do
      g.type ctx
      rereadTemplate
      match ← templatePart true with
      | .tail => return .inr ()
      | _ => return .inl ()
  | _ => return

/-- A type that needs no operator. -/
def primaryType (g : Rules script) (ctx : Context) : Parse script Unit := do
  match ← kind with
  | .sign .leftBrace =>
    advance
    untilBrace (g.typeMember ctx)
    expectSign .rightBrace
  | .sign .leftBracket =>
    advance
    discard (commaList .rightBracket (g.tupleElement ctx))
    expectSign .rightBracket
  | .sign .leftParen =>
    advance
    g.type ctx
    expectSign .rightParen
  | .sign .minus =>
    advance
    match ← kind with
    | .number _ _ _ => advance
    | _ => unexpected
  | .string => advance
  | .number _ _ _ =>
    checkNumber (← token)
    advance
  | .template .whole _ | .template .head _ => g.templateType ctx
  | .word "this" | .word "null" | .word "true" | .word "false" | .word "void" => pass
  | .word "typeof" =>
    advance
    g.namedType ctx
  | _ => g.namedType ctx

/-- A type with the brackets behind it. -/
def postfixType (g : Rules script) (ctx : Context) : Parse script Unit := do
  g.primaryType ctx
  loop () fun _ => do
    if (← token).onNewLine then return .inr ()
    if !(← eatSign .leftBracket) then return .inr ()
    if !(← eatSign .rightBracket) then
      g.type ctx
      expectSign .rightBracket
    return .inl ()

/-- A type with the operator words in front of it. -/
def operatorType (g : Rules script) (ctx : Context) : Parse script Unit := do
  loop () fun _ => do
    match ← kind with
    | .word "keyof" | .word "unique" | .word "readonly" =>
      advance
      return .inl ()
    | _ => return .inr ()
  g.postfixType ctx

/-- Types with a sign between them, which may also stand in front of the first. -/
def joinedTypes (sign : Sign) (operand : Parse script Unit) : Parse script Unit := do
  discard (eatSign sign)
  operand
  loop () fun _ => do
    if ← eatSign sign then
      operand
      return .inl ()
    return .inr ()

/-- A type: a union of intersections, or one of two types by a condition. -/
def readType (g : Rules script) (ctx : Context) : Parse script Unit := do
  if ← g.atFunctionType ctx then return ← g.functionType ctx
  joinedTypes .or (joinedTypes .and (g.operatorType ctx))
  if !(← token).onNewLine then
    if ← eatWord "extends" then
      joinedTypes .or (joinedTypes .and (g.operatorType ctx))
      expectSign .question
      g.type ctx
      expectSign .colon
      g.type ctx

end BoundTemplate.Script.Rules
