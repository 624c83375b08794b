import BoundTemplate.Text.Excerpt

/-!
# What is wrong with a directive

A directive is read from front to back, and reading fails at the offset where
what comes next makes no sense. If nothing comes next, that is what is wrong.
-/

namespace BoundTemplate.Directive

/-- What a directive lacks at some place. -/
inductive Problem where
  | directiveNameExpected
  | colonExpected
  | importedNameExpected
  | fromExpected
  | moduleExpected
  | unterminatedModule
  /-- Something follows the module. -/
  | inputBehindImport
  | endOfInput
  deriving DecidableEq, Repr

/-- The wording of a problem. -/
def Problem.message : Problem → String
  | directiveNameExpected => "Expected directive name"
  | colonExpected => "Expected ':' after directive name"
  | importedNameExpected => "Expected identifier or '*'"
  | fromExpected => "Expected keyword 'from'"
  | moduleExpected => "Expected string literal"
  | unterminatedModule => "Unterminated string literal"
  | inputBehindImport => "Unexpected input after import"
  | endOfInput => "Unexpected end of input"

/-- A problem and the offset at which it was met. -/
structure Failure where
  problem : Problem
  offset : Nat
  deriving DecidableEq, Repr

/-- The failure of what is left to read: a problem, or that nothing is left. -/
def Failure.before (problem : Problem) (rest : Excerpt) : Failure :=
  ⟨if rest.text.isEmpty then .endOfInput else problem, rest.offset⟩

end BoundTemplate.Directive
