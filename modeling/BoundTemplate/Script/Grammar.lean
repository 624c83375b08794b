import BoundTemplate.Script.Grammar.Statement

/-!
# Scripts of one expression

The rules of the grammar refer to one another for what is nested in them; every
such reference goes past a token, so a text has no more levels than a multiple of
its length. `Expr.ofText` reads one expression from the start of a text and does
not look at what follows it.
-/

namespace BoundTemplate.Script

variable {script : Text}

/-- The rules of the grammar for texts of at most some levels. -/
def rules : Nat → Rules script
  | 0 => Rules.tooDeep
  | n + 1 =>
    let g := rules n
    { assignment := g.readAssignment
      operation := g.readOperation
      unary := g.readUnary
      access := g.readAccess
      constructed := g.readConstructed
      pattern := g.readPattern
      statement := g.readStatement
      type := g.readType
      markup := g.readMarkup }

/-- A bound on the levels of a text. -/
def levels (t : Text) : Nat := 4 * t.length + 8

/-- What is wrong after an expression has been read: first the problems of tokens, then the others
in order, and at last the initialisers that belong to no pattern. -/
def State.diagnostics (s : State script) : List Diagnostic :=
  s.cursor.problems.reverse ++ s.problems.reverse ++
    s.initialisers.reverse.map fun start => ⟨.patternInitialiser, start⟩

/-- The expression at the start of a text, or the diagnostic that counts: the one that stopped
reading, or else the first. -/
def Expr.ofText (t : Text) : Except Diagnostic (Expr t) :=
  match ((rules (levels t)).expression Context.module).run (State.ofText t) with
  | .error d => .error d
  | .ok (e, s) =>
    match s.diagnostics with
    | [] => .ok e
    | d :: _ => .error d

/-- The parser that reads expressions by this grammar. -/
def Parser.standard : Parser where
  read t :=
    match Expr.ofText t with
    | .ok e => .ok e.outline
    | .error d => .error [⟨d.problem.message, some d.offset⟩]

end BoundTemplate.Script
