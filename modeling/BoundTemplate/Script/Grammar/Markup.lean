import BoundTemplate.Script.Grammar.Rules

/-!
# Elements of a markup language

An element between angles is no expression, but it is told apart from other
mistakes. Its names may hold hyphens, its quoted values escape nothing, and what
stands between its tags is text up to a brace or to the next tag.
-/

namespace BoundTemplate.Script

namespace Cursor

/-- The cursor behind text between tags. -/
def skipMarkupText (c : Cursor script) : Cursor script :=
  c.skipWhile fun ch => ch != '{' && ch != '<'

/-- The cursor behind a quoted value, if one comes next. -/
def skipMarkupValue? (c : Cursor script) : Option (Cursor script) :=
  let c := c.skip c.blankEnd.length
  match c.rest with
  | [] => none
  | quote :: t =>
    let inside := (t.takeWhile (· != quote)).length
    if (quote == '"' || quote == '\'') && inside < t.length then some (c.skip (inside + 2))
    else none

end Cursor

namespace Rules

open Parse

variable {script : Text}

/-- Goes past the text between tags to the next token. -/
def passMarkupText : Parse script Unit := modify fun s => s.goTo s.cursor.skipMarkupText

/-- A name with hyphens. -/
def hyphenatedName : Parse script Unit := do
  if !(← kind).isPropertyName then unexpected
  modify fun s => s.goTo (s.cursor.skipWhile fun c => isNamePart c || c == '-')

/-- The name of a tag or of an attribute, with its parts. -/
def markupName : Parse script Unit := do
  hyphenatedName
  loop () fun _ => do
    let k ← kind
    if k != .sign .dot && k != .sign .colon then return .inr ()
    pass
    hyphenatedName
    return .inl ()

/-- An expression between braces, or nothing, up to the closing brace. -/
def markupHole (g : Rules script) (ctx : Context) : Parse script Unit := do
  expectSign .leftBrace
  discard (eatSign .ellipsis)
  if !(← atSign .rightBrace) then discard (g.expression ctx.withIn)
  if !(← atSign .rightBrace) then unexpected

/-- The value of an attribute, read at the sign in front of it. -/
def markupValue (g : Rules script) (ctx : Context) : Parse script Unit := do
  match (← get).cursor.skipMarkupValue? with
  | some cursor => modify fun s => s.goTo cursor
  | none =>
    pass
    if ← atSign .leftBrace then
      g.markupHole ctx
      pass
    else
      g.markup ctx
      pass

/-- The attributes of a tag. -/
def markupAttributes (g : Rules script) (ctx : Context) : Parse script Unit :=
  loop () fun _ => do
    match ← kind with
    | .sign .leftBrace =>
      g.markupHole ctx
      pass
      return .inl ()
    | .sign .greater | .sign .slash => return .inr ()
    | _ =>
      markupName
      if ← atSign .assign then g.markupValue ctx
      return .inl ()

/-- What stands between the tags of an element, with the last tag up to its last sign. -/
def markupContent (g : Rules script) (ctx : Context) : Parse script Unit :=
  loop () fun _ => do
    passMarkupText
    match ← kind with
    | .sign .leftBrace =>
      g.markupHole ctx
      return .inl ()
    | .sign .less =>
      if ← nextToken (·.kind == .sign .slash) then
        pass
        pass
        if !(← atSign .greater) then markupName
        if !(← atSign .greater) then unexpected
        return .inr ()
      g.markup ctx
      return .inl ()
    | _ => unexpected

/-- An element, up to its last sign. -/
def readMarkup (g : Rules script) (ctx : Context) : Parse script Unit := do
  expectSign .less
  if !(← atSign .greater) then
    markupName
    g.markupAttributes ctx
    if ← eatSign .slash then
      if !(← atSign .greater) then unexpected
      return
  g.markupContent ctx

end Rules

end BoundTemplate.Script
