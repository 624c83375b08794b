import BoundTemplate.Markup.Token

/-!
# Tokenizers

A tokenizer takes markup apart. Which tokens it finds in a text, and when it gives up,
is its own affair; what is relied on is that tokens follow one another without a gap,
from the start of the text up to a failure or to the end, and that the position of a
reader counts the bytes of the tokens it has read. A byte order mark at the start of a
text may be left out, and then it is not counted.
-/

namespace BoundTemplate.Markup

/-- The byte order mark. -/
def byteOrderMark : Char := '\uFEFF'

/-- Whether a character is white space in a tag. -/
def isGap (c : Char) : Bool := c == ' ' || c == '\t' || c == '\r' || c == '\n'

/-- Why there is no token at a place: the wording, and the position in the text of the reader that
the tokenizer gives for it. -/
structure Failure where
  message : String
  position : Nat
  deriving DecidableEq, Repr

/-- What is wrong with some markup. -/
inductive Problem where
  /-- No token can be read. -/
  | unreadable (message : String)
  /-- An end tag ends no open element. -/
  | strayEndTag (name : Text)
  deriving DecidableEq, Repr

/-- The wording of a problem. -/
def Problem.message : Problem → String
  | unreadable message => message
  | strayEndTag name => "Unexpected closing tag </" ++ String.ofList name ++ ">"

/-- A tokenizer: readers of texts, and what they read. -/
structure Tokenizer where
  /-- A reader of a text, somewhere between two tokens. -/
  Reader : Type
  /-- The reader that has read nothing of a text. -/
  ofText : Text → Reader
  /-- What a reader has left to read. -/
  rest : Reader → Text
  /-- How many bytes a reader has read. -/
  position : Reader → Nat
  /-- Reads a token; at the end of the text there is none. -/
  next : Reader → Except Failure (Option (Token × Reader))
  /-- Nothing has been read at first. -/
  position_ofText (t : Text) : position (ofText t) = 0
  /-- A text is read from its start, if no byte order mark stands there. -/
  rest_ofText {t : Text} (h : t.head? ≠ some byteOrderMark) : rest (ofText t) = t
  /-- No more is read than the text. -/
  size_rest_ofText_le (t : Text) : (rest (ofText t)).size ≤ t.size
  /-- A token is read off what is left. -/
  rest_of_next {r r' : Reader} {token : Token} (h : next r = .ok (some (token, r'))) :
    rest r = token.lexeme ++ rest r'
  /-- The bytes of a token are counted. -/
  position_of_next {r r' : Reader} {token : Token} (h : next r = .ok (some (token, r'))) :
    position r' = position r + token.lexeme.size
  /-- In an end tag, white space alone follows the name. -/
  gaps_of_next {r r' : Reader} {name others : Text}
    (h : next r = .ok (some (.endTag name others, r'))) : others.all isGap = true
  /-- The end is where nothing is left. -/
  rest_of_end {r : Reader} (h : next r = .ok none) : rest r = []

end BoundTemplate.Markup
