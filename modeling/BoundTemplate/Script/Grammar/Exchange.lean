import BoundTemplate.Script.Grammar.Declaration

/-!
# Imports and exports

What a module takes from others and what it gives to them. Both may be written
where any statement may.
-/

namespace BoundTemplate.Script.Rules

open Parse

variable {script : Text}

/-- A string that names a module or something in it. -/
def moduleString : Parse script Unit := do
  if (← kind) != .string then unexpected
  advance

/-- The name under which something is exchanged, which may be a string. -/
def exchangedName : Parse script Unit := do
  if (← kind) == .string then advance else anyName

/-- The attributes of an exchange: keys with strings. -/
def attributes (g : Rules script) (ctx : Context) : Parse script Unit := do
  if (← atWord "with") || ((← atWord "assert") && !(← token).onNewLine) then
    advance
    expectSign .leftBrace
    discard <| commaList .rightBrace do
      discard (g.key ctx)
      expectSign .colon
      moduleString
    expectSign .rightBrace

/-- The module that takes part in an exchange, and the end of the statement. -/
def moduleSource (g : Rules script) (ctx : Context) : Parse script Unit := do
  expectWord "from"
  moduleString
  g.attributes ctx
  endStatement

/-- A name that is imported: its own, or the one behind the word `as`. -/
def importedName (ctx : Context) : Parse script Unit := do
  let t ← token
  exchangedName
  if ← eatWord "as" then declaredName ctx
  else if t.kind == .string then expectWord "as"
  else if t.kind.isReserved then fail (.reservedName t.kind.text) t.start

/-- What is imported under one name or under several. -/
def importedNames (ctx : Context) : Parse script Unit := do
  if ← eatSign .star then
    expectWord "as"
    declaredName ctx
  else
    expectSign .leftBrace
    discard (commaList .rightBrace (importedName ctx))
    expectSign .rightBrace

/-- An import as a statement, read at its word. -/
def importStatement (g : Rules script) (ctx : Context) : Parse script Unit := do
  advance
  if (← kind) == .string then
    moduleString
    g.attributes ctx
    return ← endStatement
  if (← atWord "source") || (← atWord "defer") then
    if ← nextToken fun t => t.kind != .word "from" && t.kind != .sign .comma then advance
  if (← atSign .star) || (← atSign .leftBrace) then importedNames ctx
  else
    declaredName ctx
    if ← eatSign .comma then importedNames ctx
  g.moduleSource ctx

/-- The default of a module, read behind its word. -/
def exportedDefault (g : Rules script) (ctx : Context) : Parse script Unit := do
  let first ← start
  if ← atSign .atSign then discard (g.decoratedClass ctx)
  else if ← atWord "function" then discard (g.function ctx first false .exported)
  else if ← atPair "async" "function" then
    advance
    discard (g.function ctx first true .exported)
  else if (← atWord "class") || (← atPair "abstract" "class") then
    let found ← modifiers false
    discard (g.classDefinition ctx first found)
  else
    discard (g.assignment ctx)
    endStatement

/-- A declaration that is exported. -/
def exportedDeclaration (g : Rules script) (ctx : Context) : Parse script Unit := do
  let first ← start
  if ← atSign .atSign then discard (g.decorators ctx)
  match ← kind with
  | .word "var" | .word "let" | .word "const" => g.variableStatement ctx .list
  | .word "function" => g.functionStatement ctx .list false
  | _ =>
    if ← atPair "async" "function" then g.functionStatement ctx .list true
    else
      let found ← modifiers false
      if !(← atWord "class") then unexpected
      g.classStatement ctx .list first found

/-- A name that is exported, with another one or without. -/
def exportedName : Parse script (Token script) := do
  let t ← token
  exchangedName
  if ← eatWord "as" then exchangedName
  return t

/-- Reports a name of the module itself that is none. -/
def checkExported (t : Token script) : Parse script Unit :=
  match t.kind with
  | .string => report .exportedString t.start
  | .word w =>
    if reservedWords.contains w || futureWords.contains w then report .exportedWord t.start
    else return
  | _ => return

/-- Names that are exported, either of the module itself or of another one. -/
def exportedNames (g : Rules script) (ctx : Context) : Parse script Unit := do
  expectSign .leftBrace
  let (names, _) ← commaList .rightBrace exportedName
  expectSign .rightBrace
  if ← atWord "from" then g.moduleSource ctx
  else
    names.forM checkExported
    endStatement

/-- An export as a statement, read at its word. -/
def exportStatement (g : Rules script) (ctx : Context) : Parse script Unit := do
  advance
  match ← kind with
  | .word "default" =>
    advance
    g.exportedDefault ctx
  | .sign .star =>
    advance
    if ← eatWord "as" then exchangedName
    g.moduleSource ctx
  | .sign .leftBrace => g.exportedNames ctx
  | _ => g.exportedDeclaration ctx

end BoundTemplate.Script.Rules
