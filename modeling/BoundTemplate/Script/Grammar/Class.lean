import BoundTemplate.Script.Grammar.Function
import BoundTemplate.Script.Grammar.Type

/-!
# Classes

A class has a name or not, a class that it extends or not, and a body of
methods, fields and static blocks. Some names mean something in a class and are
refused for members of another form.
-/

namespace BoundTemplate.Script

/-- The forms of a member of a class. -/
inductive MemberForm where
  | method (isAsync isGenerator : Bool)
  | accessor
  | field
  /-- A field that is read and written by a getter and a setter. -/
  | accessedField
  deriving DecidableEq, Repr

/-- What is wrong with the name of a member of a class. -/
def MemberForm.nameProblem? (isStatic : Bool) (name : String) : MemberForm → Option Problem
  | form =>
    if name == "#constructor" then some .privateConstructor
    else if isStatic && name == "prototype" then some .staticPrototype
    else if name != "constructor" then none
    else
      match form with
      | .field => some .constructorField
      | .accessedField => some .constructorAccessor
      | .accessor => if isStatic then none else some .accessorConstructor
      | .method isAsync isGenerator =>
        if isStatic then none
        else if isGenerator then some .generatorConstructor
        else if isAsync then some .asyncConstructor
        else none

namespace Rules

open Parse

variable {script : Text}

/-- The context of a static block. -/
def staticContext : Context := ⟨true, true, false, false, false⟩

/-- The key of a member of a class. -/
def memberKey (g : Rules script) (ctx : Context) : Parse script (Key script) := do
  let t ← token
  if t.kind != .privateName then return ← g.key ctx
  pass
  return ⟨.privateName, ⟨t.start, t.stop⟩, nofun⟩

/-- The name that a key spells out; what is computed has none. -/
def keyName (key : Key script) : Parse script String := do
  let t := script.slice key.span
  match key.form with
  | .computed => return ""
  | .string => return String.ofList (t.drop 1).dropLast
  | _ => return String.ofList t

/-- Reports what is wrong with the name of a member. -/
def checkMemberName (modifiers : List Modifier) (key : Key script) (form : MemberForm) :
    Parse script Unit := do
  let name ← keyName key
  if let some problem := form.nameProblem? (marked modifiers "static") name then
    report problem key.span.start

/-- Reports the modifiers that mean nothing for a member of a class. -/
def checkMemberModifiers (modifiers : List Modifier) (form : MemberForm) : Parse script Unit :=
  modifiers.forM fun m => do
    match m.word, form with
    | "const", _ => report .constantMember m.start
    | "default", _ | "export", _ | "in", _ | "out", _ => report (.memberModifier m.word) m.start
    | "readonly", .accessedField | "declare", .accessedField | "async", .accessedField =>
      report (.accessorModifier m.word) m.start
    | "async", .field | "async", .accessor => report (.misplacedModifier m.word) m.start
    | "readonly", .method _ _ | "readonly", .accessor => report .readonlyMethod m.start
    | "declare", .method _ _ | "declare", .accessor => report (.memberModifier m.word) m.start
    | _, _ => return

/-- The end of a field: a semicolon, or a place where one may be left out. -/
def endField : Parse script Unit := do
  if !(← eatSign .semicolon) && !(← mayEndStatement) then expectSign .semicolon

/-- A field, read behind its key. -/
def field (g : Rules script) (modifiers : List Modifier) (key : Key script) :
    Parse script Unit := do
  discard (eatSign .not)
  let form := if marked modifiers "accessor" then .accessedField else MemberForm.field
  if ← eatSign .assign then
    discard (g.assignment (functionContext false false))
    if marked modifiers "abstract" then
      report (.abstractInitialiser (← keyName key)) key.span.start
  endField
  checkMemberName modifiers key form
  checkMemberModifiers modifiers form

/-- Reports the modifiers and the name of a member with a body. -/
def checkBody (modifiers : List Modifier) (key : Key script) (form : MemberForm) :
    Parse script Unit := do
  checkMemberName modifiers key form
  checkMemberModifiers modifiers form
  if marked modifiers "abstract" then
    report (.abstractBody (form == .accessor) (← keyName key)) key.span.start

/-- Whether the constructor starts here. -/
def atConstructor (modifiers : List Modifier) : Parse script Bool := do
  if marked modifiers "static" then return false
  let t ← token
  match h : t.kind with
  | .word "constructor" => return true
  | .string =>
    let name ← keyName ⟨.string, ⟨t.start, t.stop⟩, fun _ => t.quoted h⟩
    if name != "constructor" then return false
    nextToken (·.kind == .sign .leftParen)
  | _ => return false

/-- Whether a bracket starts the declaration of what is found under any key. -/
def atIndexSignature : Parse script Bool := do
  if !(← atSign .leftBracket) then return false
  let found ← lookahead do
    pass
    let k ← kind
    pass
    if Modifier.words.contains k.text && (← kind).isIdentifier then return true
    if !k.isIdentifier then return false
    match ← kind with
    | .sign .colon | .sign .comma => return true
    | .sign .question =>
      nextToken fun t =>
        t.kind == .sign .colon || t.kind == .sign .comma || t.kind == .sign .rightBracket
    | _ => return false
  return found.getD false

/-- The declaration of what is found under any key, which stops behind its first name: types of
members are not read. -/
def indexSignature : Parse script Unit := do
  advance
  pass
  unexpected

/-- A method or a field, with its star and its key. -/
def methodOrField (g : Rules script) (ctx : Context) (modifiers : List Modifier) :
    Parse script Unit := do
  let isGenerator ← eatSign .star
  let key ← g.memberKey ctx
  discard (eatSign .question)
  if isGenerator || (← atSign .leftParen) || (← atSign .less) then
    let isAsync := marked modifiers "async"
    discard (g.method isAsync isGenerator true)
    checkBody modifiers key (.method isAsync isGenerator)
  else g.field modifiers key

/-- A getter or a setter, read at the word that says which. -/
def accessorMember (g : Rules script) (ctx : Context) (modifiers : List Modifier)
    (rest : Parse script (Expr script)) : Parse script Unit := do
  advance
  let key ← g.memberKey ctx
  discard rest
  checkBody modifiers key .accessor

/-- An element of a class. Neither a static block nor the constructor is decorated. -/
def classElement (g : Rules script) (ctx : Context) : Parse script Unit := do
  let decorators ← g.decorators ctx
  let found ← modifiers true
  if (← atWord "static") && (← nextToken (·.kind == .sign .leftBrace)) then
    refuseDecorators decorators
    advance
    g.block staticContext
  else if ← atAccessor "get" then g.accessorMember ctx found (g.getter true)
  else if ← atAccessor "set" then g.accessorMember ctx found (g.setter true)
  else if ← atConstructor found then
    refuseDecorators decorators
    let key ← g.memberKey ctx
    let isAsync := marked found "async"
    discard (g.method isAsync false true)
    checkBody found key (.method isAsync false)
  else if ← atIndexSignature then indexSignature
  else g.methodOrField ctx found

/-- The body of a class, with its braces. Behind a semicolon another element has to come, or the
end of the body. -/
def classBody (g : Rules script) (ctx : Context) : Parse script Unit := do
  expectSign .leftBrace
  loop () fun _ => do
    let k ← kind
    if k == .sign .rightBrace || k.isMissing then return .inr ()
    loop () fun _ => do
      if ← eatSign .semicolon then return .inl ()
      return .inr ()
    if ← atSign .rightBrace then return .inr ()
    g.classElement ctx
    return .inl ()
  expectSign .rightBrace

/-- What a class extends: one operand, with arguments of its type. -/
def superclasses (g : Rules script) (ctx : Context) : Parse script Unit := do
  discard (g.access ctx)
  g.typeArguments? ctx
  loop () fun _ => do
    if !(← eatSign .comma) then return .inr ()
    let first ← start
    discard (g.access ctx)
    g.typeArguments? ctx
    report .secondSuperclass first
    return .inl ()

/-- What a class implements: types with commas between them. -/
def interfaces (g : Rules script) (ctx : Context) : Parse script Unit :=
  loop () fun _ => do
    dottedName
    g.typeArguments? ctx
    if ← eatSign .comma then return .inl ()
    return .inr ()

/-- What a class extends and what it implements, in this order and each at most once. -/
def heritage (g : Rules script) (ctx : Context) : Parse script Unit :=
  loop ((false, none) : Bool × Option Nat) fun (extended, implements?) => do
    let first ← start
    if ← eatWord "extends" then
      if extended then report (.repeatedClause "extends") first
      else if let some offset := implements? then report .clauseOrder offset
      g.superclasses ctx
      return .inl (true, implements?)
    if ← eatWord "implements" then
      if let some offset := implements? then report (.repeatedClause "implements") offset
      g.interfaces ctx
      return .inl (extended, implements?.or (some first))
    return .inr ()

/-- A class, read at its word behind its modifiers; `start` is the offset of what it starts with. -/
def classDefinition (g : Rules script) (ctx : Context) (start : Nat) (modifiers : List Modifier) :
    Parse script (Expr script) := do
  expectWord "class"
  let k ← kind
  if k.isIdentifier && k != .word "implements" then declaredName ctx
  g.heritage ctx
  g.classBody ctx
  refuseModifiers modifiers ["declare", "abstract"] .misplacedModifier
  return .other (← spanFrom start)

/-- A class behind its decorators. -/
def decoratedClass (g : Rules script) (ctx : Context) : Parse script (Expr script) := do
  let first ← start
  discard (g.decorators ctx)
  let found ← modifiers false
  if !(← atWord "class") then unexpected
  g.classDefinition ctx first found

end Rules

end BoundTemplate.Script
