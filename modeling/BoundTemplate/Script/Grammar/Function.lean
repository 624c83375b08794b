import BoundTemplate.Script.Grammar.Pattern

/-!
# Functions and methods

A function has a name or not, parameters and a body. Whether it is asynchronous
and whether it is a generator decides what `await` and `yield` mean inside.
-/

namespace BoundTemplate.Script.Rules

open Parse

variable {script : Text}

/-- What a function is read as. -/
inductive FunctionForm where
  /-- A part of an expression. -/
  | expression
  /-- A declaration, which needs a name. -/
  | declared
  /-- The default of a module. -/
  | exported
  deriving DecidableEq, Repr

/-- The context inside of a function. -/
def functionContext (isAsync isGenerator : Bool) : Context :=
  ⟨true, isAsync, isGenerator, false, true⟩

/-- Statements between braces. -/
def block (g : Rules script) (ctx : Context) : Parse script Unit := do
  expectSign .leftBrace
  untilBrace (g.statement { ctx with allowIn := true, decorating := false } .list)
  expectSign .rightBrace

/-- The name of a function, if it has one. -/
def functionName (ctx : Context) (form : FunctionForm) : Parse script Unit := do
  let t ← token
  if t.kind.isIdentifier then declaredName ctx
  else if form == .declared then
    if t.kind == .sign .leftParen then report .functionNameExpected t.start
    else if t.kind.isReserved then fail (.tokenExpected Kind.name.text t.kind.text) t.start

/-- A function, read at its word; `start` is the offset of what it starts with. The name of one that
is declared belongs to what is around it. The value says whether it is a generator. -/
def function (g : Rules script) (ctx : Context) (start : Nat) (isAsync : Bool)
    (form : FunctionForm) : Parse script (Bool × Expr script) := do
  expectWord "function"
  let isGenerator ← eatSign .star
  let inside := functionContext isAsync isGenerator
  functionName (if form == .expression then inside else ctx) form
  discard (g.parameters inside false)
  if form != .expression && !(← atSign .leftBrace) then fail .bodyExpected start
  g.block inside
  return (isGenerator, .other (← spanFrom start))

/-- The parameters and the body of a method, and how many parameters there are; a method needs its
body. -/
def method (g : Rules script) (isAsync isGenerator inClass : Bool) :
    Parse script (ElementCount × Expr script) := do
  let first ← start
  let ctx := functionContext isAsync isGenerator
  let counts ← g.parameters ctx inClass
  if !(← atSign .leftBrace) then fail .bodyExpected first
  g.block ctx
  return (counts, .other (← spanFrom first))

/-- The rest of a getter behind its key: it takes no parameter. -/
def getter (g : Rules script) (inClass : Bool) : Parse script (Expr script) := do
  let first ← start
  let ((count, _), e) ← g.method false false inClass
  if count != 0 then report .getterParameters first
  return e

/-- The rest of a setter behind its key: it takes one parameter, which is no rest. -/
def setter (g : Rules script) (inClass : Bool) : Parse script (Expr script) := do
  let first ← start
  let ((count, rest?), e) ← g.method false false inClass
  match rest? with
  | some offset => report .setterRest offset
  | none => if count != 1 then report .setterParameters first
  return e

end BoundTemplate.Script.Rules
