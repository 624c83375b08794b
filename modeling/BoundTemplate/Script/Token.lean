import BoundTemplate.Script.Character
import BoundTemplate.Text.Span

/-!
# Tokens of a script

A token is a kind and the span of its text. Signs are told apart by constructors
and words of the language by their spelling; every other name is of one kind.
-/

namespace BoundTemplate.Script

/-- The signs of the language. -/
inductive Sign where
  | leftBrace | rightBrace | leftParen | rightParen | leftBracket | rightBracket
  | dot | ellipsis | semicolon | comma | colon | atSign | arrow
  | question | questionDot | questionQuestion
  | less | greater | lessEqual | greaterEqual
  | equalEqual | notEqual | equalEqualEqual | notEqualEqual
  | plus | minus | star | slash | percent | power | increment | decrement
  | shiftLeft | shiftRight | shiftRightUnsigned
  | and | or | xor | not | complement | andAnd | orOr
  | assign | plusAssign | minusAssign | starAssign | slashAssign | percentAssign | powerAssign
  | shiftLeftAssign | shiftRightAssign | shiftRightUnsignedAssign
  | andAssign | orAssign | xorAssign | andAndAssign | orOrAssign | coalesceAssign
  deriving DecidableEq, Repr

/-- The characters of a sign. -/
def Sign.text : Sign → String
  | leftBrace => "\x7b" | rightBrace => "\x7d" | leftParen => "(" | rightParen => ")"
  | leftBracket => "[" | rightBracket => "]"
  | dot => "." | ellipsis => "..." | semicolon => ";" | comma => "," | colon => ":" | atSign => "@"
  | arrow => "=>" | question => "?" | questionDot => "?." | questionQuestion => "??"
  | less => "<" | greater => ">" | lessEqual => "<=" | greaterEqual => ">="
  | equalEqual => "==" | notEqual => "!=" | equalEqualEqual => "===" | notEqualEqual => "!=="
  | plus => "+" | minus => "-" | star => "*" | slash => "/" | percent => "%" | power => "**"
  | increment => "++" | decrement => "--"
  | shiftLeft => "<<" | shiftRight => ">>" | shiftRightUnsigned => ">>>"
  | and => "&" | or => "|" | xor => "^" | not => "!" | complement => "~"
  | andAnd => "&&" | orOr => "||"
  | assign => "=" | plusAssign => "+=" | minusAssign => "-=" | starAssign => "*="
  | slashAssign => "/=" | percentAssign => "%=" | powerAssign => "**="
  | shiftLeftAssign => "<<=" | shiftRightAssign => ">>=" | shiftRightUnsignedAssign => ">>>="
  | andAssign => "&=" | orAssign => "|=" | xorAssign => "^="
  | andAndAssign => "&&=" | orOrAssign => "||=" | coalesceAssign => "??="

/-- Every sign has characters. -/
theorem Sign.text_ne_nil (s : Sign) : s.text.toList ≠ [] := by
  cases s <;> decide

/-- The signs that a longest-match scan looks for, longer ones first. A `>` is always a sign of its
own at first; the operators that start with it are made of it where an operator may stand. -/
def Sign.scanned : List Sign :=
  [.ellipsis, .equalEqualEqual, .notEqualEqual, .powerAssign, .shiftLeftAssign, .andAndAssign,
   .orOrAssign, .coalesceAssign,
   .arrow, .questionDot, .questionQuestion, .lessEqual, .equalEqual, .notEqual, .power, .increment,
   .decrement, .shiftLeft, .andAnd, .orOr, .plusAssign, .minusAssign, .starAssign, .slashAssign,
   .percentAssign, .andAssign, .orAssign, .xorAssign,
   .leftBrace, .rightBrace, .leftParen, .rightParen, .leftBracket, .rightBracket, .dot, .semicolon,
   .comma, .colon, .atSign, .question, .less, .greater, .plus, .minus, .star, .slash, .percent,
   .and, .or, .xor, .not, .complement, .assign]

/-- The operators that start with `>`, longer ones first. -/
def Sign.angled : List Sign :=
  [.shiftRightUnsignedAssign, .shiftRightUnsigned, .shiftRightAssign, .shiftRight, .greaterEqual,
   .greater]

/-- The notations of a number. -/
inductive NumberForm where
  | decimal | float | binary | octal | hexadecimal
  deriving DecidableEq, Repr

/-- The name of a notation. -/
def NumberForm.text : NumberForm → String
  | decimal => "decimal" | float => "float" | binary => "binary" | octal => "octal"
  | hexadecimal => "hex"

/-- The parts of a template, told apart by what starts and what ends them. -/
inductive TemplatePart where
  /-- From the first quote to the last. -/
  | whole
  /-- From the first quote to a hole. -/
  | head
  /-- From a hole to a hole. -/
  | middle
  /-- From a hole to the last quote. -/
  | tail
  deriving DecidableEq, Repr

/-- The kinds of tokens. -/
inductive Kind where
  /-- The end of the script. -/
  | eof
  /-- Something that is no token; a diagnostic says why. -/
  | unknown
  /-- A name that is not a word of the language. -/
  | name
  /-- A word of the language, reserved or not. -/
  | word (spelling : String)
  /-- A sign. -/
  | sign (sign : Sign)
  /-- A number; a big one is an integer of any size, and a sound one has all the digits it needs. -/
  | number (form : NumberForm) (big sound : Bool)
  /-- A quoted string. -/
  | string
  /-- A pattern between slashes. -/
  | pattern
  /-- A part of a template; it is sound if its escape sequences are right. -/
  | template (part : TemplatePart) (sound : Bool)
  /-- A private name. -/
  | privateName
  deriving DecidableEq, Repr

/-- The words that are never names. -/
def reservedWords : List String :=
  ["break", "case", "catch", "class", "const", "continue", "debugger", "default", "delete", "do",
   "else", "enum", "export", "extends", "false", "finally", "for", "function", "if", "import", "in",
   "instanceof", "new", "null", "return", "super", "switch", "this", "throw", "true", "try",
   "typeof", "var", "void", "while", "with"]

/-- The words that name nothing in a module, although they may stand for a name elsewhere. -/
def futureWords : List String :=
  ["implements", "interface", "package", "private", "protected", "public", "static"]

/-- The words that are operators in some functions and names elsewhere. -/
def operatorWords : List String := ["await", "yield"]

/-- The words that mean something in some places and are names elsewhere. -/
def contextualWords : List String :=
  ["abstract", "accessor", "any", "as", "assert", "asserts", "async", "bigint", "boolean",
   "constructor", "declare", "defer", "from", "get", "global", "implements", "infer", "interface",
   "intrinsic", "is", "keyof", "let", "meta", "module", "namespace", "never", "number", "object",
   "of", "out", "override", "package", "private", "protected", "public", "readonly", "require",
   "satisfies", "set", "source", "static", "string", "symbol", "target", "type", "undefined",
   "unique", "unknown", "using"]

/-- Whether a spelling is a word of the language. -/
def isWord (spelling : String) : Bool :=
  reservedWords.contains spelling || operatorWords.contains spelling ||
    contextualWords.contains spelling

namespace Kind

/-- The name of a kind in a message. -/
def text : Kind → String
  | eof => "EOF"
  | unknown => "Unknown"
  | name => "Identifier"
  | word "namespace" => "namaespace"
  | word w => w
  | sign s => s.text
  | number form big _ => if big then form.text ++ " bigint" else form.text
  | string => "string"
  | pattern => "/regexp/"
  | template .whole _ => "$\x7b\x7d"
  | template .head _ => "$\x7b"
  | template .middle _ => "$\x7bexpr\x7d"
  | template .tail _ => "\x7d"
  | privateName => "#identifier"

/-- The kind of a name that is spelled in this way. -/
def ofSpelling (t : Text) : Kind :=
  let spelling := String.ofList t
  if isWord spelling then word spelling else name

/-- Whether a kind tells with which characters its tokens begin and end. -/
def isDelimited : Kind → Bool
  | string | sign _ => true
  | _ => false

/-- A name begins and ends with any of its characters. -/
theorem isDelimited_ofSpelling (t : Text) : (ofSpelling t).isDelimited = false := by
  unfold ofSpelling
  dsimp only
  split <;> rfl

/-- Whether the token ends a list without a further complaint. -/
def isMissing : Kind → Bool
  | eof | unknown => true
  | _ => false

/-- Whether the token may name a property. -/
def isPropertyName : Kind → Bool
  | name | word _ => true
  | _ => false

/-- Whether the token is a word that is never a name. -/
def isReserved : Kind → Bool
  | word w => reservedWords.contains w
  | _ => false

/-- Whether the token may name something that is declared or referred to. -/
def isIdentifier : Kind → Bool
  | name => true
  | word w => !reservedWords.contains w
  | _ => false

/-- Whether the token may be the value of the key that it is, where `await` and `yield` may be
operators. -/
def isShorthand (inAwait inYield : Bool) : Kind → Bool
  | word "await" => !inAwait
  | word "yield" => !inYield
  | k => k.isIdentifier

/-- Whether the token is a literal. -/
def isLiteral : Kind → Bool
  | word w => w == "null" || w == "true" || w == "false"
  | number _ _ _ | string | pattern => true
  | _ => false

/-- Whether the token may be the key of a property as it stands. -/
def isLiteralKey : Kind → Bool
  | name | word _ | number _ _ _ | string => true
  | _ => false

/-- Whether the token may start the key of a property or of an element of a class. -/
def startsKey : Kind → Bool
  | privateName | sign .leftBracket => true
  | k => k.isLiteralKey

end Kind

/-- A span of a script that starts and ends with the same quote. -/
def Quoted (script : Text) (span : Span) : Prop :=
  ∃ (quote : Char) (content : Text), (quote = '"' ∨ quote = '\'') ∧
    script.Holds span (quote :: (content ++ [quote]))

/-- A token of a script. -/
structure Token (script : Text) where
  /-- What the token is. -/
  kind : Kind
  /-- The offset of its first byte. -/
  start : Nat
  /-- The offset behind its last byte. -/
  stop : Nat
  /-- Whether a line ends between the previous token and this one. -/
  onNewLine : Bool
  /-- Whether the token is a name with an escape sequence. -/
  escaped : Bool
  /-- A string has its quotes. -/
  quoted : kind = .string → Quoted script ⟨start, stop⟩
  /-- A sign has its characters. -/
  spelled : ∀ sign, kind = .sign sign → script.Holds ⟨start, stop⟩ sign.text.toList
  deriving DecidableEq, Repr

end BoundTemplate.Script
