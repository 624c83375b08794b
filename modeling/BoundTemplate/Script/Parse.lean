import BoundTemplate.Script.Lexer
import BoundTemplate.Script.Expr

/-!
# Reading a script token by token

A reader of a part of a script goes from state to state and ends with a value or
with the one diagnostic that stops all reading. Diagnostics that stop nothing are
collected in the state.
-/

namespace BoundTemplate.Script

/-- Where reading stands. -/
structure State (script : Text) where
  /-- The place behind the current token. -/
  cursor : Cursor script
  /-- The token that is looked at. -/
  token : Token script
  /-- The offset behind the previous token. -/
  lastStop : Nat
  /-- The diagnostics that stopped nothing, latest first; those of tokens are in the cursor. -/
  problems : List Diagnostic
  /-- The starts of the properties that are initialised as in a pattern, latest first. -/
  initialisers : List Nat
  /-- The starts of the literals whose last element is followed by a comma, with that comma. -/
  commas : List (Nat × Nat)
  /-- The current token ends where the place is. -/
  behind : token.stop = cursor.offset
  /-- Between the previous token and the current one stand only blanks. -/
  apart : Apart script lastStop token.start
  deriving Repr

/-- A reader of a part of a script. -/
abbrev Parse (script : Text) := StateT (State script) (Except Diagnostic)

/-- The state in front of the first token of a text. -/
def State.ofText (t : Text) : State t :=
  let start := Cursor.ofText t
  let read := start.readToken
  ⟨read.2, read.1, 0, [], [], [], start.stop_readToken, start.apart_readToken⟩

/-- The state in front of the token that a cursor reads. -/
def State.goTo {script : Text} (c : Cursor script) (s : State script) : State script :=
  let read := c.readToken
  { s with
    cursor := read.2
    token := read.1
    lastStop := c.offset
    behind := c.stop_readToken
    apart := c.apart_readToken }

/-- The state with its current token read as another one, which ends at another place. -/
def State.reread {script : Text} (s : State script) (kind : Kind) (next : Cursor script)
    (quoted : kind = .string → Quoted script ⟨s.token.start, next.offset⟩)
    (spelled : ∀ sign, kind = .sign sign →
      script.Holds ⟨s.token.start, next.offset⟩ sign.text.toList) : State script :=
  { s with
    cursor := next
    token := { s.token with kind, stop := next.offset, quoted, spelled }
    behind := rfl }

/-- The parts of an enclosing rule that decide how words and operators are read. -/
structure Context where
  /-- Whether `in` is an operator. -/
  allowIn : Bool
  /-- Whether `await` is an operator. -/
  inAwait : Bool
  /-- Whether `yield` is an operator. -/
  inYield : Bool
  /-- Whether the expression is a decorator, which ends in front of a bracket. -/
  decorating : Bool
  /-- Whether there is a function to return from. -/
  mayReturn : Bool
  deriving DecidableEq, Repr

namespace Context

/-- The context of a module. -/
def module : Context := ⟨true, true, false, false, false⟩

/-- The context with `in` as an operator. -/
def withIn (ctx : Context) : Context := { ctx with allowIn := true }

/-- The context without `in` as an operator. -/
def withoutIn (ctx : Context) : Context := { ctx with allowIn := false }

end Context

/-- Whether a line that starts at an offset marks a conflict between two versions of a text: seven
times the same sign, with nothing or a blank behind it. -/
def marksConflict (t : Text) (offset : Nat) : Bool :=
  let startsLine := (t.takeBytes offset).getLast?.all fun c => c == '\n' || c == '\r'
  let line := t.dropBytes offset
  let mark := line.take 7
  startsLine && mark.length == 7 && ['<', '=', '>', '|'].any (fun c => mark.all (· == c)) &&
    (line.drop 7).head?.all fun c => isSpace c || isLineEnd c

namespace Parse

variable {script : Text}

/-- The current token. -/
def token : Parse script (Token script) := return (← get).token

/-- The kind of the current token. -/
def kind : Parse script Kind := return (← get).token.kind

/-- The offset at which the current token starts. -/
def start : Parse script Nat := return (← get).token.start

/-- The span from an offset to the end of the previous token. -/
def spanFrom (start : Nat) : Parse script Span := return ⟨start, (← get).lastStop⟩

/-- Whether the current token is a sign. -/
def atSign (s : Sign) : Parse script Bool := return (← kind) == .sign s

/-- Whether the current token is a word of the language. -/
def atWord (w : String) : Parse script Bool := return (← kind) == .word w

/-- Stops reading. -/
def fail {α : Type} (problem : Problem) (offset : Nat) : Parse script α := throw ⟨problem, offset⟩

/-- Records a problem and goes on. -/
def report (problem : Problem) (offset : Nat) : Parse script Unit :=
  modify fun s => { s with problems := ⟨problem, offset⟩ :: s.problems }

/-- Goes to the next token without a look at the current one. -/
def pass : Parse script Unit := modify fun s => s.goTo s.cursor

/-- Goes to the next token; a word of the language must be written without escape sequences. -/
def advance : Parse script Unit := do
  let t ← token
  if t.escaped && t.kind != .name then report .escapedWord t.start
  pass

/-- Goes past a sign if it is the current token. -/
def eatSign (s : Sign) : Parse script Bool := do
  if ← atSign s then
    advance
    return true
  return false

/-- Goes past a word if it is the current token. -/
def eatWord (w : String) : Parse script Bool := do
  if ← atWord w then
    advance
    return true
  return false

/-- Stops at the current token, which no rule allows. Where the token is missing or unknown, the
latest problem of the lexer says more; a mark of a conflict is called what it is. -/
def unexpected {α : Type} : Parse script α := do
  let s ← get
  let latest? := if s.token.kind.isMissing then s.cursor.problems.head? else none
  match latest? with
  | some d => throw d
  | none =>
    if marksConflict script s.token.start then fail .conflictMarker s.token.start
    else fail .unexpectedToken s.token.start

/-- Goes past a token of a kind or stops. -/
def expect (wanted : Kind) : Parse script Unit := do
  let t ← token
  if t.kind == wanted then advance
  else fail (.tokenExpected wanted.text t.kind.text) t.start

/-- Goes past a sign or stops. -/
def expectSign (s : Sign) : Parse script Unit := expect (.sign s)

/-- Goes past a word or stops. -/
def expectWord (w : String) : Parse script Unit := expect (.word w)

/-- What a reader would return here; a reader that would stop returns nothing. -/
def lookahead {α : Type} (p : Parse script α) : Parse script (Option α) := do
  match p.run (← get) with
  | .ok (a, _) => return some a
  | .error _ => return none

/-- The token behind the current one. -/
def following : Parse script (Token script) := return (← get).cursor.readToken.1

/-- Whether a test holds for the token behind the current one. -/
def nextToken (test : Token script → Bool) : Parse script Bool := return test (← following)

/-- Reads, or stays here if reading would stop. -/
def attempt {α : Type} (p : Parse script α) : Parse script (Option α) := do
  match p.run (← get) with
  | .ok (a, s) =>
    set s
    return some a
  | .error _ => return none

/-- A bound on the number of tokens from here on, the end included. -/
def budget : Parse script Nat := return (← get).cursor.rest.length + 2

/-- Repeats a step at most `n` times, until it returns a result. -/
def iterate {α β : Type} (step : α → Parse script (α ⊕ β)) : Nat → α → Parse script β
  | 0, _ => do fail .tooDeep (← start)
  | n + 1, a => do
    match ← step a with
    | .inl a => iterate step n a
    | .inr b => return b

/-- Repeats a step that goes past a token, until it returns a result. -/
def loop {α β : Type} (a : α) (step : α → Parse script (α ⊕ β)) : Parse script β := do
  iterate step (← budget) a

/-- What comes behind the elements that a list has so far, latest first: its closing sign, perhaps
behind a comma, or a comma and one more element. -/
def nextElement {α : Type} (closer : Sign) (element : Parse script α) (elements : List α) :
    Parse script (List α ⊕ (List α × Option Nat)) := do
  let t ← token
  if t.kind == .sign closer || t.kind.isMissing then return .inr (elements.reverse, none)
  if t.kind != .sign .comma then
    fail (.separatorExpected closer.text t.kind.text) t.start
  advance
  if ← atSign closer then return .inr (elements.reverse, some t.start)
  return .inl ((← element) :: elements)

/-- The elements of a list up to its closing sign, which stays: commas separate them, and one may
stand behind the last. The second value is the offset of that one. -/
def commaList {α : Type} (closer : Sign) (element : Parse script α) :
    Parse script (List α × Option Nat) := do
  let first ← kind
  if first == .sign closer || first.isMissing then return ([], none)
  let a ← element
  loop [a] (nextElement closer element)

/-- Whether a statement may end in front of the current token. -/
def mayEndStatement : Parse script Bool := do
  let t ← token
  return t.onNewLine || t.kind == .sign .semicolon || t.kind == .sign .rightBrace || t.kind == .eof

/-- The end of a statement: a semicolon, or a place where one may be left out. -/
def endStatement : Parse script Unit := do
  if ← eatSign .semicolon then return
  if ← mayEndStatement then return
  fail .semicolonExpected (← get).lastStop

/-- Repeats a step up to a closing brace or to a token that is missing. -/
def untilBrace (step : Parse script Unit) : Parse script Unit := do
  loop () fun _ => do
    let k ← kind
    if k == .sign .rightBrace || k.isMissing then return .inr ()
    step
    return .inl ()

/-- Goes on as if an expression were a pattern: its problems are recorded, and its initialisers are
in order. -/
def asPattern (check : PatternCheck → Except Diagnostic PatternCheck) : Parse script Unit := do
  let s ← get
  match check ⟨s.problems, []⟩ with
  | .error d => throw d
  | .ok c =>
    set { s with
      problems := c.problems
      initialisers := s.initialisers.filter fun start => !c.initialised.contains start }

end Parse

end BoundTemplate.Script
