import BoundTemplate.Script.Grammar.Class

/-!
# Operands

The expressions that need no operator: names, literals, functions, classes, and
everything between brackets.
-/

namespace BoundTemplate.Script.Rules

open Parse

variable {script : Text}

/-- The element of an array literal; a comma where an element is expected stands behind a hole. -/
def element (g : Rules script) (ctx : Context) : Parse script (Element script) := do
  let first ← start
  if ← atSign .comma then return .hole
  if ← eatSign .ellipsis then
    let e ← g.assignment ctx
    return .spread (← spanFrom first) e
  return .item (← g.assignment ctx)

/-- Remembers the comma behind the last element of a literal. -/
def rememberComma (start : Nat) (comma? : Option Nat) : Parse script Unit :=
  match comma? with
  | some offset => modify fun s => { s with commas := (start, offset) :: s.commas }
  | none => return

/-- An array literal. -/
def array (g : Rules script) (ctx : Context) : Parse script (Expr script) := do
  let first ← start
  expectSign .leftBracket
  let (elements, comma?) ← commaList .rightBracket (g.element ctx.withIn)
  rememberComma first comma?
  expectSign .rightBracket
  return .array (← spanFrom first) elements

/-- The rest of an entry of an object literal behind a key that stands for its own value. An
initialiser is in order only if the literal turns out to be a pattern. -/
def shorthand (g : Rules script) (ctx : Context) (start : Nat) (key : Key script) :
    Parse script (Property script) := do
  if ← eatSign .assign then
    discard (g.assignment ctx)
    modify fun s => { s with initialisers := start :: s.initialisers }
  return .entry (← spanFrom start) key .shorthand (.identifier key.span)

/-- A getter or a setter of an object literal, read at the word that says which. -/
def accessorEntry (g : Rules script) (ctx : Context) (start : Nat) (form : PropertyForm)
    (rest : Parse script (Expr script)) : Parse script (Property script) := do
  advance
  let key ← g.key ctx
  let e ← rest
  return .entry (← spanFrom start) key form e

/-- An entry of an object literal. Of the modifiers only `async` means something, in front of a
method. -/
def entry (g : Rules script) (ctx : Context) : Parse script (Property script) := do
  let first ← start
  if ← eatSign .ellipsis then
    let e ← g.assignment ctx
    return .spread (← spanFrom first) e
  let found ← modifiers false
  if ← atAccessor "get" then
    refuseModifiers found [] .misplacedModifier
    return ← g.accessorEntry ctx first .getter (g.getter false)
  if ← atAccessor "set" then
    refuseModifiers found [] .misplacedModifier
    return ← g.accessorEntry ctx first .setter (g.setter false)
  let isGenerator ← eatSign .star
  let named ← kind
  let key ← g.key ctx
  if isGenerator || (← atSign .leftParen) || (← atSign .less) then
    refuseModifiers found ["async"] .misplacedModifier
    let (_, e) ← g.method (marked found "async") isGenerator false
    return .entry (← spanFrom first) key .method e
  refuseModifiers found [] .misplacedModifier
  if named.isShorthand ctx.inAwait ctx.inYield && !(← atSign .colon) then g.shorthand ctx first key
  else
    expectSign .colon
    let e ← g.assignment ctx
    return .entry (← spanFrom first) key .value e

/-- An object literal. -/
def object (g : Rules script) (ctx : Context) : Parse script (Expr script) := do
  let first ← start
  expectSign .leftBrace
  let (properties, comma?) ← commaList .rightBrace (g.entry ctx.withIn)
  rememberComma first comma?
  expectSign .rightBrace
  return .object (← spanFrom first) properties

/-- Expressions between parentheses: at least one, and no comma behind the last. -/
def parenthesized (g : Rules script) (ctx : Context) : Parse script (Expr script) := do
  let first ← start
  expectSign .leftParen
  let inside ← start
  let (es, comma?) ← commaList .rightParen (g.assignment { ctx.withIn with decorating := false })
  match comma? with
  | some offset => fail .parenthesizedComma offset
  | none =>
    let span ← spanFrom inside
    expectSign .rightParen
    match es with
    | [] => fail .emptyParentheses first
    | [e] => return .parenthesized (← spanFrom first) e
    | _ => return .parenthesized (← spanFrom first) (.other span)

/-- A pattern between slashes: no problem may have been met in it, nor in any token before. -/
def slashPattern : Parse script (Expr script) := do
  let first ← start
  let (flags, cursor) := (← get).cursor.readPattern first
  modify fun s => s.reread .pattern cursor nofun nofun
  if !cursor.problems.isEmpty then unexpected
  if Cursor.flagsConflict flags then report .patternFlags first
  advance
  return .other (← spanFrom first)

/-- The word `super`, which stands for something only in front of a member or a call. -/
def superclass : Parse script (Expr script) := do
  let first ← start
  advance
  let k ← kind
  if k != .sign .dot && k != .sign .leftBracket && k != .sign .leftParen then
    report .loneSuper first
  return .other (← spanFrom first)

/-- The arguments of an import call: a module and at most one more. -/
def importArguments (g : Rules script) (ctx : Context) (start : Nat) :
    Parse script (Expr script) := do
  expectSign .leftParen
  if ← eatSign .rightParen then fail .importWithoutModule start
  discard (g.assignment ctx.withIn)
  if ← eatSign .comma then
    if !(← atSign .rightParen) then
      discard (g.assignment ctx.withIn)
      discard (eatSign .comma)
  if !(← eatSign .rightParen) then fail .importArguments start
  return .importCall (← spanFrom start)

/-- The word `import`, as a call or with its property. -/
def imported (g : Rules script) (ctx : Context) : Parse script (Expr script) := do
  let first ← start
  advance
  if ← eatSign .dot then
    if ← eatWord "meta" then return .other (← spanFrom first)
    if ← eatWord "source" then g.importArguments ctx first
    else if ← eatWord "defer" then g.importArguments ctx first
    else fail .importProperty first
  else if ← atSign .leftParen then g.importArguments ctx first
  else unexpected

/-- The word `new`, with its property or with what it constructs. -/
def construction (g : Rules script) (ctx : Context) : Parse script (Expr script) := do
  let first ← start
  advance
  if ← eatSign .dot then
    if ← eatWord "target" then return .other (← spanFrom first)
    fail .newProperty first
  let inside ← start
  let callee ← g.constructed ctx
  if ← atSign .questionDot then fail .newOptionalChain (← start)
  if ← atSign .leftParen then g.arguments ctx
  match callee with
  | .importCall _ => report .newImport inside
  | _ => pure ()
  return .other (← spanFrom first)

/-- A name that is referred to. -/
def reference (ctx : Context) : Parse script (Expr script) := do
  let first ← start
  if !(← kind).isIdentifier then unexpected
  checkName ctx
  pass
  return .identifier (← spanFrom first)

/-- A token that is an operand by itself. -/
def single : Parse script (Expr script) := do
  let first ← start
  checkNumber (← token)
  advance
  return .other (← spanFrom first)

/-- An operand. -/
def primary (g : Rules script) (ctx : Context) : Parse script (Expr script) := do
  let first ← start
  let k ← kind
  match k with
  | .sign .leftBracket => g.array ctx
  | .sign .leftBrace => g.object ctx
  | .sign .leftParen => g.parenthesized ctx
  | .sign .slash | .sign .slashAssign => slashPattern
  | .sign .atSign => g.decoratedClass ctx
  | .template .whole _ | .template .head _ =>
    g.template ctx false
    return .other (← spanFrom first)
  | .word "this" => single
  | .word "function" => return (← g.function ctx first false .expression).2
  | .word "class" => g.classDefinition ctx first []
  | .word "new" => g.construction ctx
  | .word "super" => superclass
  | .word "import" => g.imported ctx
  | .word "async" =>
    if ← nextToken fun t => t.kind == .word "function" && !t.onNewLine then
      advance
      return (← g.function ctx first true .expression).2
    else reference ctx
  | k => if k.isLiteral then single else reference ctx

end BoundTemplate.Script.Rules
