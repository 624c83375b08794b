import BoundTemplate.Text.Bytes

/-!
# Tokens of markup

Markup is a row of tokens: tags, comments, and stretches that are kept as they are,
which are texts, sections, declarations and instructions. A token has the characters
that it was read from, and a tag says which of them are its name. A tag whose name
does not start with a letter is none: its `<` is text.
-/

namespace BoundTemplate.Markup

/-- A token of markup. -/
inductive Token where
  /-- Characters that are kept as they are: at least one. -/
  | text (first : Char) (others : Text)
  /-- A comment, without its delimiters. -/
  | comment (content : Text)
  /-- The start of an element: its name and what follows that in the tag. -/
  | startTag (name others : Text)
  /-- A whole element without content, whose tag ends in a slash. -/
  | emptyTag (name others : Text)
  /-- The end of an element. -/
  | endTag (name others : Text)
  deriving DecidableEq, Repr

namespace Token

/-- The characters of a token. -/
def lexeme : Token → Text
  | text first others => first :: others
  | comment content => "<!--".toList ++ content ++ "-->".toList
  | startTag name others => '<' :: (name ++ others) ++ ['>']
  | emptyTag name others => '<' :: (name ++ others) ++ ['/', '>']
  | endTag name others => '<' :: '/' :: (name ++ others) ++ ['>']

/-- Every token has characters. -/
theorem lexeme_ne_nil (token : Token) : token.lexeme ≠ [] := by
  cases token <;> exact List.cons_ne_nil _ _

/-- The part of a text in front of the first `>` outside of quotes. -/
def beforeTagEnd? (quote? : Option Char) : Text → Option Text
  | [] => none
  | c :: t =>
    match quote? with
    | some quote => (beforeTagEnd? (if c = quote then none else some quote) t).map (c :: ·)
    | none =>
      if c = '>' then some []
      else (beforeTagEnd? (if c = '"' || c = '\'' then some c else none) t).map (c :: ·)

/-- A tag goes through the `>` that ends it. -/
theorem prefix_of_beforeTagEnd? {quote? : Option Char} {t body : Text}
    (h : beforeTagEnd? quote? t = some body) : body ++ ['>'] <+: t := by
  induction t generalizing quote? body with
  | nil => simp [beforeTagEnd?] at h
  | cons c t ih =>
    simp only [beforeTagEnd?] at h
    split at h
    · obtain ⟨u, hu, rfl⟩ := Option.map_eq_some_iff.1 h
      simpa using ih hu
    · split at h
      · next hc =>
        cases h
        simp [hc]
      · obtain ⟨u, hu, rfl⟩ := Option.map_eq_some_iff.1 h
        simpa using ih hu

/-- Whether a name is that of an element: it starts with an ASCII letter. -/
def isTagName (name : Text) : Bool := name.head?.any Char.isAlpha

/-- Whether a token is a tag whose name is none, so that its `<` is text. -/
def isBare : Token → Bool
  | startTag name _ | emptyTag name _ | endTag name _ => !isTagName name
  | text _ _ | comment _ => false

end Token

end BoundTemplate.Markup
