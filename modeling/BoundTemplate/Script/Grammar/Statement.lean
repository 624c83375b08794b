import BoundTemplate.Script.Grammar.Exchange
import BoundTemplate.Script.Grammar.Loop

/-!
# Statements

The statements of a function body. They yield nothing but their problems. Where
one stands alone, as the body of a loop or behind a label, it declares nothing
that needs a block.
-/

namespace BoundTemplate.Script.Rules

open Parse

variable {script : Text}

/-- An expression between parentheses in the head of a statement. -/
def head (g : Rules script) (ctx : Context) : Parse script Unit := do
  expectSign .leftParen
  discard (g.expression ctx)
  expectSign .rightParen

/-- A case of a `switch` with its statements. -/
def switchCase (g : Rules script) (ctx : Context) : Parse script Unit := do
  if ← eatWord "case" then discard (g.expression ctx)
  else if !(← eatWord "default") then fail .caseExpected (← start)
  expectSign .colon
  loop () fun _ => do
    match ← kind with
    | .word "case" | .word "default" | .sign .rightBrace => return .inr ()
    | _ =>
      let first ← start
      let declaresResource ← atResources
      g.statement ctx .list
      if declaresResource then report .usingInCase first
      return .inl ()

/-- A `try`, read at its word, with a handler or a finalizer. -/
def protectedBlock (g : Rules script) (ctx : Context) : Parse script Unit := do
  advance
  g.block ctx
  let behind := (← get).lastStop
  let handled ← eatWord "catch"
  if handled then
    if ← eatSign .leftParen then
      g.pattern ctx
      expectSign .rightParen
    g.block ctx
  let finalized ← eatWord "finally"
  if finalized then g.block ctx
  if !handled && !finalized then report .handlerExpected behind

/-- The label that a jump may have, and the end of the statement. -/
def jump (ctx : Context) : Parse script Unit := do
  if !(← mayEndStatement) then discard (reference ctx)
  endStatement

/-- A result, which may be left out, and the end of the statement. -/
def result (g : Rules script) (ctx : Context) : Parse script Unit := do
  let first ← start
  advance
  if !(← mayEndStatement) then discard (g.expression ctx)
  endStatement
  if !ctx.mayReturn then report .returnOutside first

/-- An expression as a statement, or a label and the statement that it names. -/
def expressionStatement (g : Rules script) (ctx : Context) : Parse script Unit := do
  let e ← g.expression ctx
  if isName e then
    if ← eatSign .colon then return ← g.statement ctx .single
  endStatement

/-- What is declared behind decorators: a class, which may be exported. -/
def decoratedStatement (g : Rules script) (ctx : Context) (place : Place) : Parse script Unit := do
  let first ← start
  discard (g.decorators ctx)
  if ← atWord "export" then return ← g.exportStatement ctx
  let found ← modifiers false
  if !(← atWord "class") then unexpected
  g.classStatement ctx place first found

/-- The declarations that start with a word of the language; `none` for any other word. -/
def declaration? (g : Rules script) (ctx : Context) (place : Place) (word : String) :
    Option (Parse script Unit) :=
  match word with
  | "var" | "const" => some (g.variableStatement ctx place)
  | "function" => some (g.functionStatement ctx place false)
  | "class" => some do g.classStatement ctx place (← start) []
  | "export" => some (g.exportStatement ctx)
  | "import" => some do
    if ← nextToken fun t => t.kind == .sign .leftParen || t.kind == .sign .dot then
      g.expressionStatement ctx
    else g.importStatement ctx
  | _ => none

/-- The other statements that start with a word of the language; `none` for any other word. -/
def keywordStatement? (g : Rules script) (ctx : Context) (word : String) :
    Option (Parse script Unit) :=
  match word with
  | "if" => some do
    advance
    g.head ctx
    g.statement ctx .single
    if ← eatWord "else" then g.statement ctx .single
  | "for" => some (g.headedLoop ctx)
  | "while" | "with" => some do
    advance
    g.head ctx
    g.statement ctx .single
  | "do" => some do
    advance
    g.statement ctx .single
    expectWord "while"
    g.head ctx
    discard (eatSign .semicolon)
  | "continue" | "break" => some do
    advance
    jump ctx
  | "return" => some (g.result ctx)
  | "switch" => some do
    advance
    g.head ctx
    expectSign .leftBrace
    untilBrace (g.switchCase ctx)
    expectSign .rightBrace
  | "throw" => some do
    let first ← start
    advance
    if (← token).onNewLine then report .lineAfterThrow first
    discard (g.expression ctx)
    endStatement
  | "try" => some (g.protectedBlock ctx)
  | "debugger" => some do
    advance
    endStatement
  | _ => none

/-- A statement that starts with a word which means something only in front of some tokens. -/
def namedStatement (g : Rules script) (ctx : Context) (place : Place) (t : Token script) :
    Parse script Unit := do
  if t.kind == .word "let" && !t.escaped then g.letStatement ctx place
  else if ← atPair "async" "function" then g.functionStatement ctx place true
  else if ← atResources then g.resourceStatement ctx place
  else g.expressionStatement ctx

/-- A statement. -/
def readStatement (g : Rules script) (ctx : Context) (place : Place) : Parse script Unit := do
  let t ← token
  match t.kind with
  | .sign .leftBrace => g.block ctx
  | .sign .semicolon => advance
  | .sign .atSign => g.decoratedStatement ctx place
  | .word w =>
    match g.declaration? ctx place w <|> g.keywordStatement? ctx w with
    | some statement => statement
    | none => g.namedStatement ctx place t
  | _ => g.expressionStatement ctx

end BoundTemplate.Script.Rules
