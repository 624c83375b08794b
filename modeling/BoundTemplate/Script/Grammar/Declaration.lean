import BoundTemplate.Script.Grammar.Assignment

/-!
# Declarations of variables

Variables, constants and resources with their values. Constants, patterns and
resources need a value, unless a loop gives them one.
-/

namespace BoundTemplate.Script.Rules

open Parse

variable {script : Text}

/-- The problem of a declared name or pattern without a value. -/
def missingValue? (constant isPattern : Bool) : Option Problem :=
  if isPattern then some .uninitialisedPattern
  else if constant then some .uninitialisedConstant
  else none

/-- Declared names and their values. In the head of a loop what lacks a value is returned, since it
may turn out that the loop gives one. -/
def declarators (g : Rules script) (ctx : Context) (constant inLoop : Bool) :
    Parse script (List Diagnostic) :=
  loop [] fun missing => do
    let first ← start
    let isPattern ← atPattern
    g.pattern ctx
    let found ← if ← eatSign .assign then
        discard (g.assignment ctx)
        pure none
      else pure (missingValue? constant isPattern)
    let mut missing := missing
    if let some problem := found then
      if inLoop then missing := ⟨problem, first⟩ :: missing else report problem first
    if ← eatSign .comma then return .inl missing
    return .inr missing.reverse

/-- A declaration of variables, read at its word, and what lacks a value in the head of a loop. -/
def variableList (g : Rules script) (ctx : Context) (inLoop : Bool) :
    Parse script (List Diagnostic) := do
  let constant ← atWord "const"
  advance
  g.declarators ctx constant inLoop

/-- A declaration of variables as a statement. -/
def variableStatement (g : Rules script) (ctx : Context) (place : Place) : Parse script Unit := do
  let first ← start
  let lexical := !(← atWord "var")
  discard (g.variableList ctx false)
  endStatement
  if lexical && place == .single then report .lexicalDeclaration first

/-- Whether a kind is an operator between two operands other than a logical one. -/
def isBinaryOperator : Kind → Bool
  | .word w => w == "in" || w == "instanceof"
  | k => (level? k).any (3 < ·)

/-- A statement that starts with the word `let`: a declaration, unless what follows makes a name of
the word. -/
def letStatement (g : Rules script) (ctx : Context) (place : Place) : Parse script Unit := do
  let k := (← following).kind
  if (assigns? k).isSome || isBinaryOperator k then
    discard (g.assignment ctx)
    endStatement
  else if k == .sign .dot || k == .sign .leftParen then discard (g.expression ctx)
  else if k == .sign .semicolon || (place == .single && k != .sign .leftBracket) then
    discard (reference ctx)
    endStatement
  else g.variableStatement ctx place

/-- Whether a token may be declared as a resource by the word in front of it. -/
def isResource (t : Token script) : Bool :=
  !t.onNewLine && (t.kind.isIdentifier || t.kind == .sign .leftBrace)

/-- Whether the word `using` declares resources here. -/
def atUsing : Parse script Bool := do
  if !(← atWord "using") then return false
  nextToken isResource

/-- Whether the words `await using` declare resources here. -/
def atAwaitUsing : Parse script Bool := do
  if !(← atWord "await") then return false
  let found ← lookahead do
    pass
    if (← token).onNewLine then return false
    atUsing
  return found.getD false

/-- Whether a declaration of resources starts here. -/
def atResources : Parse script Bool := do
  if ← atUsing then return true
  atAwaitUsing

/-- A declaration of resources: names with their values. -/
def resources (g : Rules script) (ctx : Context) (inLoop : Bool) : Parse script Unit := do
  discard (eatWord "await")
  expectWord "using"
  if ← atWord "await" then
    report .usingAwait (← start)
    pass
  loop () fun _ => do
    let first ← start
    let isPattern ← atPattern
    g.pattern ctx
    let initialised ← eatSign .assign
    if initialised then discard (g.assignment ctx)
    if isPattern && !initialised && !inLoop then report .uninitialisedPattern first
    if isPattern then report .usingPattern first
    if !initialised && !inLoop then report .usingInitialiser first
    if ← eatSign .comma then return .inl ()
    return .inr ()

/-- A declaration of resources as a statement. -/
def resourceStatement (g : Rules script) (ctx : Context) (place : Place) : Parse script Unit := do
  let first ← start
  g.resources ctx false
  endStatement
  if place == .single then report .lexicalDeclaration first

/-- A function as a statement; alone it is neither asynchronous nor a generator. -/
def functionStatement (g : Rules script) (ctx : Context) (place : Place) (isAsync : Bool) :
    Parse script Unit := do
  let first ← start
  if isAsync then advance
  let (isGenerator, _) ← g.function ctx first isAsync .declared
  if place == .single then
    if isAsync then report .asyncDeclaration first
    else if isGenerator then report .generatorDeclaration first

/-- A class as a statement behind its modifiers, of which the statement starts with the first. -/
def classStatement (g : Rules script) (ctx : Context) (place : Place) (start : Nat)
    (modifiers : List Modifier) : Parse script Unit := do
  discard (g.classDefinition ctx start modifiers)
  if place == .single then report .classDeclaration start

end BoundTemplate.Script.Rules
