import BoundTemplate.Directive.Failure
import BoundTemplate.Text.Letter
import BoundTemplate.Text.Quote

/-!
# Words of a directive

A directive is made of words, signs and literals. A word is a run of letters,
digits, underscores and dollar signs that does not start with a digit. In a
literal a backslash keeps the character behind it, and a line that ends leaves the
literal unfinished.
-/

namespace BoundTemplate.Directive

/-- The word at the start of an excerpt, and what follows it. -/
def word? (e : Excerpt) : Option (Excerpt × Excerpt) :=
  if e.text.head?.any isWordStart then
    let n := (e.text.takeWhile isWordPart).length
    some (e.take n, e.drop n)
  else none

/-- The word or the asterisk at the start of an excerpt, and what follows it. -/
def importedName? (e : Excerpt) : Option (Excerpt × Excerpt) :=
  if e.text.head? = some '*' then some (e.take 1, e.drop 1) else word? e

/-- What follows a certain word at the start of an excerpt. -/
def afterKeyword? (keyword : String) (e : Excerpt) : Option Excerpt :=
  let behind := e.drop keyword.toList.length
  if keyword.toList.isPrefixOf e.text && !behind.text.head?.any isWordPart then some behind
  else none

/-- The characters of a literal up to its quote, to the end of its line or to the end of the text;
`escaped` tells whether a backslash stands in front. -/
def literalContent (quote : Char) (escaped : Bool) : Text → Text
  | [] => []
  | c :: t =>
    if escaped then c :: literalContent quote false t
    else if c = '\\' then c :: literalContent quote true t
    else if c = quote || c = '\n' || c = '\r' then []
    else c :: literalContent quote false t

/-- A literal between quotes. -/
structure Quoted where
  /-- What stands between the quotes. -/
  content : Excerpt
  quote : Quote
  deriving DecidableEq, Repr

/-- Reads the literal at the start of an excerpt, and what follows it. -/
def readLiteral (e : Excerpt) : Except Failure (Quoted × Excerpt) :=
  match e.text with
  | [] => .error (Failure.before .moduleExpected e)
  | c :: _ =>
    match Quote.ofChar? c with
    | none => .error (Failure.before .moduleExpected e)
    | some quote =>
      let inner := e.drop 1
      let n := (literalContent c false inner.text).length
      let rest := inner.drop n
      if rest.text.head? = some c then .ok (⟨inner.take n, quote⟩, rest.drop 1)
      else .error ⟨.unterminatedModule, rest.offset⟩

/-- The content of a literal is a beginning of what follows its quote. -/
theorem literalContent_prefix (quote : Char) (escaped : Bool) (t : Text) :
    literalContent quote escaped t <+: t := by
  induction t generalizing escaped with
  | nil => simp [literalContent]
  | cons c t ih =>
    simp only [literalContent]
    split
    · simpa using ih false
    · split
      · simpa using ih true
      · split
        · exact List.nil_prefix
        · simpa using ih false

end BoundTemplate.Directive
