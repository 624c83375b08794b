import BoundTemplate.Script.Grammar.Rules

/-!
# Modifiers

Some words qualify the declaration behind them if something follows that they can
qualify, and are names otherwise. Modifiers come in an order; where one means
nothing is for the declaration to say.
-/

namespace BoundTemplate.Script

/-- A word that qualifies a declaration, and where it starts. -/
structure Modifier where
  word : String
  start : Nat
  deriving DecidableEq, Repr

namespace Modifier

/-- The words that may be modifiers. -/
def words : List String :=
  ["abstract", "accessor", "async", "const", "declare", "default", "export", "in", "out",
   "override", "private", "protected", "public", "readonly", "static"]

/-- The modifiers that say from where a member may be accessed. -/
def accessWords : List String := ["private", "protected", "public"]

/-- The modifiers that a modifier has to precede. -/
def laterWords (word : String) : List String :=
  if accessWords.contains word then ["override", "static", "accessor", "readonly", "async"]
  else
    match word with
    | "static" => ["readonly", "async", "accessor", "override"]
    | "override" => ["readonly", "accessor", "async"]
    | "abstract" => ["override", "accessor"]
    | "export" => ["declare", "abstract", "async"]
    | _ => []

/-- What is wrong with a modifier behind others. -/
def problem? (seen : List Modifier) (word : String) : Option Problem :=
  let seen := seen.map (·.word)
  if accessWords.contains word && seen.any accessWords.contains then some .repeatedAccessibility
  else if seen.contains word then some (.repeatedModifier word)
  else ((laterWords word).find? seen.contains).map (.modifierOrder word ·)

end Modifier

namespace Rules

open Parse

variable {script : Text}

/-- Whether a kind of token may follow a modifier. -/
def isModifiable : Kind → Bool
  | .sign .leftBrace | .sign .star | .sign .ellipsis => true
  | k => k.startsKey

/-- Whether a word comes next and another one behind it on the same line. -/
def atPair (first second : String) : Parse script Bool := do
  if !(← atWord first) then return false
  nextToken fun t => t.kind == .word second && !t.onNewLine

/-- Whether the current token is what a default of a module may start with. -/
def atDefault : Parse script Bool := do
  let k ← kind
  if k == .word "class" || k == .word "function" || k == .word "interface" || k == .sign .atSign
  then return true
  return (← atPair "abstract" "class") || (← atPair "async" "function")

/-- Whether the current token may follow the word `export` as a modifier. -/
def atExported : Parse script Bool := do
  let k ← kind
  if k == .sign .atSign then return true
  return k != .sign .star && k != .sign .leftBrace && k != .word "as" && isModifiable k

/-- Whether the current token may follow a word as a modifier. -/
def atModified (word : String) : Parse script Bool := do
  let t ← token
  match word with
  | "static" => return isModifiable t.kind
  | "default" => atDefault
  | "export" =>
    if t.kind == .word "default" then
      pass
      atDefault
    else atExported
  | _ => return !t.onNewLine && isModifiable t.kind

/-- Whether the word that is looked at is a modifier. In a class a constant may be marked as such,
and `static` in front of a brace starts a block; nothing is static twice. -/
def atModifier (inClass : Bool) (seen : List Modifier) : Parse script Bool := do
  match ← kind with
  | .word w =>
    if !Modifier.words.contains w then return false
    if w == "const" && !inClass then return false
    if w == "static" then
      if seen.any (·.word == "static") then return false
      if inClass && (← nextToken (·.kind == .sign .leftBrace)) then return false
    let found ← lookahead do
      pass
      atModified w
    return found.getD false
  | _ => return false

/-- The modifiers in front of a declaration, with what is wrong with their order. -/
def modifiers (inClass : Bool) : Parse script (List Modifier) :=
  loop [] fun seen => do
    if !(← atModifier inClass seen) then return .inr seen.reverse
    let t ← token
    let word := t.kind.text
    if let some problem := Modifier.problem? seen word then report problem t.start
    advance
    return .inl (⟨word, t.start⟩ :: seen)

/-- Reports the modifiers other than those that mean something. -/
def refuseModifiers (modifiers : List Modifier) (meaningful : List String)
    (problem : String → Problem) : Parse script Unit :=
  modifiers.forM fun m =>
    if meaningful.contains m.word then return else report (problem m.word) m.start

/-- Whether some modifiers hold a word. -/
def marked (modifiers : List Modifier) (word : String) : Bool := modifiers.any (·.word == word)

/-- Whether the word that is looked at makes an accessor of the key behind it. -/
def atAccessor (word : String) : Parse script Bool := do
  if !(← atWord word) then return false
  nextToken (·.kind.startsKey)

end Rules

end BoundTemplate.Script
