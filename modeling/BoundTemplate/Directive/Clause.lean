import BoundTemplate.Directive.Word

/-!
# Import clauses

An import clause is a name or an asterisk, the word `from` and a literal that
names a module. One of the words `type` may stand in front of the name or behind
it; in front, `type` is the name itself unless another name follows that is not
`from`.
-/

namespace BoundTemplate.Directive

/-- An import clause that has been read. -/
structure Clause where
  /-- From the first character through the closing quote. -/
  span : Span
  /-- The imported name, or an asterisk. -/
  name : Excerpt
  /-- A `type` stands in front of the name or behind it. -/
  typeOnly : Bool
  module : Quoted
  deriving DecidableEq, Repr

namespace Clause

/-- The name of a clause that starts with a word, whether that word was a `type` in front of the
name, and what is left. -/
def skipLeadingType (first rest : Excerpt) : Excerpt × Bool × Excerpt :=
  if first.text = "type".toList then
    match importedName? rest with
    | some (name, behind) =>
      if name.text = "from".toList then (first, false, rest) else (name, true, behind.trimStart)
    | none => (first, false, rest)
  else (first, false, rest)

/-- Whether a `type` stands behind the name of a clause that has none in front, and what is left. -/
def skipTrailingType (typed : Bool) (rest : Excerpt) : Bool × Excerpt :=
  if typed then (true, rest)
  else
    match afterKeyword? "type" rest with
    | some behind => (true, behind.trimStart)
    | none => (false, rest)

/-- Reads an import clause that is all of an excerpt, blanks at its end apart. -/
def read (e : Excerpt) : Except Failure Clause :=
  match importedName? e with
  | none => .error (Failure.before .importedNameExpected e)
  | some (first, rest) =>
    let (name, typed, rest) := skipLeadingType first rest.trimStart
    let (typeOnly, rest) := skipTrailingType typed rest
    match afterKeyword? "from" rest with
    | none => .error (Failure.before .fromExpected rest)
    | some rest =>
      match readLiteral rest.trimStart with
      | .error failure => .error failure
      | .ok (module, rest) =>
        if rest.trimStart.text.isEmpty then .ok ⟨⟨e.offset, rest.offset⟩, name, typeOnly, module⟩
        else .error (Failure.before .inputBehindImport rest.trimStart)

end Clause

/-- A directive that has been read: its name, what follows the colon, and for some names the import
clause that this is, or why it is none. -/
structure Outline where
  name : Excerpt
  param : Excerpt
  clause : Option (Except Failure Clause)

namespace Outline

/-- The directives whose parameter is an import clause. -/
def importing : List Text := ["with", "using"].map String.toList

/-- Reads the directive that an excerpt is. -/
def read (e : Excerpt) : Except Failure Outline :=
  match word? e.trimStart with
  | none => .error (Failure.before .directiveNameExpected e.trimStart)
  | some (name, rest) =>
    let rest := rest.trimStart
    if rest.text.head? = some ':' then
      let param := (rest.drop 1).trim
      .ok ⟨name, param, if importing.contains name.text then some (Clause.read param) else none⟩
    else .error (Failure.before .colonExpected rest)

end Outline

end BoundTemplate.Directive
