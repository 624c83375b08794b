import BoundTemplate.Markup.Tokenizer
import BoundTemplate.Text.Search

/-!
# A lexer of markup

The tokenizer that reads templates when the program runs. A tag ends at the first `>` outside of
quotes, a comment at its two dashes and a `>`; sections, instructions and declarations are texts.
The name in a tag goes up to the first gap, and that in an end tag through all but the gaps at its
end.
-/

namespace BoundTemplate.Markup

namespace Lexer

/-- Why no token can be read. -/
inductive Problem where
  | unclosedTag
  | unclosedComment
  | unclosedSection
  | unclosedDeclaration
  | unclosedInstruction
  /-- An exclamation mark is followed by nothing known. -/
  | unknownMarkup
  /-- A document type declaration names no document type. -/
  | unnamedDocumentType
  deriving DecidableEq, Repr

/-- The wording of a problem. -/
def Problem.message : Problem → String
  | unclosedTag => "syntax error: tag not closed: `>` not found before end of input"
  | unclosedComment => "syntax error: comment not closed: `-->` not found before end of input"
  | unclosedSection => "syntax error: CDATA not closed: `]]>` not found before end of input"
  | unclosedDeclaration => "syntax error: DOCTYPE not closed: `>` not found before end of input"
  | unclosedInstruction =>
    "syntax error: processing instruction or xml declaration not closed: "
      ++ "`?>` not found before end of input"
  | unknownMarkup => "syntax error: unknown or missed symbol in markup"
  | unnamedDocumentType =>
    "ill-formed document: `<!DOCTYPE>` declaration does not contain a name of a document type"

/-- A problem and its distance from the start of the token. -/
structure Failure where
  problem : Problem
  distance : Nat
  deriving DecidableEq, Repr

/-- The tag that begins an element. -/
def startTag (body : Text) : Token :=
  .startTag (body.takeWhile fun c => !isGap c) (body.dropWhile fun c => !isGap c)

/-- The tag of an element without content. -/
def emptyTag (body : Text) : Token :=
  .emptyTag (body.takeWhile fun c => !isGap c) (body.dropWhile fun c => !isGap c)

/-- The tag that ends an element. -/
def endTag (body : Text) : Token :=
  .endTag (body.reverse.dropWhile isGap).reverse (body.reverse.takeWhile isGap).reverse

/-- The part of a text in front of the `>` that closes `depth` more than the text opens. -/
def beforeBalance? (depth : Nat) : Text → Option Text
  | [] => none
  | c :: t =>
    if c = '>' then
      match depth with
      | 0 => some []
      | depth + 1 => (beforeBalance? depth t).map (c :: ·)
    else (beforeBalance? (if c = '<' then depth + 1 else depth) t).map (c :: ·)

/-- The word that begins a character data section, behind its exclamation mark. -/
def sectionStart : Text := "[CDATA[".toList

/-- The word that begins a document type declaration, behind its exclamation mark. -/
def declarationStart : Text := "doctype".toList

/-- Reads a comment behind its two dashes. -/
def readComment (t : Text) : Except Failure Token :=
  match Text.before? "-->".toList t with
  | some content => .ok (.comment content)
  | none => .error ⟨.unclosedComment, 0⟩

/-- Reads a character data section behind its exclamation mark. -/
def readSection (t : Text) : Except Failure Token :=
  if sectionStart.isPrefixOf t then
    match Text.before? "]]>".toList (t.drop sectionStart.length) with
    | some content => .ok (.text '<' ('!' :: sectionStart ++ content ++ "]]>".toList))
    | none => .error ⟨.unclosedSection, 0⟩
  else .error ⟨.unclosedSection, 0⟩

/-- Reads a document type declaration behind its exclamation mark. -/
def readDeclaration (t : Text) : Except Failure Token :=
  if Text.startsLike declarationStart t then
    match beforeBalance? 0 (t.drop declarationStart.length) with
    | some content =>
      let others := '!' :: t.take declarationStart.length ++ content ++ ['>']
      if content.all isGap then .error ⟨.unnamedDocumentType, Text.size others⟩
      else .ok (.text '<' others)
    | none => .error ⟨.unclosedDeclaration, 0⟩
  else .error ⟨.unclosedDeclaration, 0⟩

/-- Reads what begins with an exclamation mark, behind that mark. -/
def readExclamation (t : Text) : Except Failure Token :=
  match t with
  | '-' :: '-' :: rest => readComment rest
  | '-' :: _ => .error ⟨.unclosedComment, 0⟩
  | '[' :: _ => readSection t
  | 'D' :: _ => readDeclaration t
  | 'd' :: _ => readDeclaration t
  | _ => .error ⟨.unknownMarkup, 0⟩

/-- Reads a processing instruction behind its question mark; it needs another question mark. -/
def readInstruction (t : Text) : Except Failure Token :=
  if t.head? = some '>' then .error ⟨.unclosedInstruction, 0⟩
  else
    match Text.before? "?>".toList t with
    | some content => .ok (.text '<' ('?' :: content ++ "?>".toList))
    | none => .error ⟨.unclosedInstruction, 0⟩

/-- Reads an end tag behind its slash. -/
def readEndTag (t : Text) : Except Failure Token :=
  match Token.beforeTagEnd? none t with
  | some body => .ok (endTag body)
  | none => .error ⟨.unclosedTag, 0⟩

/-- Reads a start tag, or a tag without content, behind its `<`. -/
def readStartTag (t : Text) : Except Failure Token :=
  match Token.beforeTagEnd? none t with
  | some body =>
    .ok (if body.getLast? = some '/' then emptyTag body.dropLast else startTag body)
  | none => .error ⟨.unclosedTag, 0⟩

/-- Reads what begins with a `<`, behind it. -/
def readMarkup (t : Text) : Except Failure Token :=
  match t with
  | '!' :: rest => readExclamation rest
  | '?' :: rest => readInstruction rest
  | '/' :: rest => readEndTag rest
  | _ => readStartTag t

/-- Reads the token at the start of some markup, which begins with the character `c`. -/
def read (c : Char) (t : Text) : Except Failure Token :=
  if c = '<' then readMarkup t else .ok (.text c (t.takeWhile (· != '<')))

/-! ### What is read is a beginning of the text -/

/-- A declaration goes through the `>` that ends it. -/
theorem prefix_of_beforeBalance? {depth : Nat} {t content : Text}
    (h : beforeBalance? depth t = some content) : content ++ ['>'] <+: t := by
  induction t generalizing depth content with
  | nil => simp [beforeBalance?] at h
  | cons c t ih =>
    simp only [beforeBalance?] at h
    split at h
    · next hc =>
      split at h
      · cases h
        simp [hc]
      · obtain ⟨u, hu, rfl⟩ := Option.map_eq_some_iff.1 h
        simpa using ih hu
    · obtain ⟨u, hu, rfl⟩ := Option.map_eq_some_iff.1 h
      simpa using ih hu

@[simp] theorem lexeme_startTag (body : Text) :
    (startTag body).lexeme = '<' :: body ++ ['>'] := by
  rw [startTag, Token.lexeme, List.takeWhile_append_dropWhile]

@[simp] theorem lexeme_emptyTag (body : Text) :
    (emptyTag body).lexeme = '<' :: body ++ ['/', '>'] := by
  rw [emptyTag, Token.lexeme, List.takeWhile_append_dropWhile]

@[simp] theorem lexeme_endTag (body : Text) :
    (endTag body).lexeme = '<' :: '/' :: body ++ ['>'] := by
  rw [endTag, Token.lexeme, ← List.reverse_append, List.takeWhile_append_dropWhile,
    List.reverse_reverse]

theorem prefix_of_readComment {t : Text} {token : Token} (h : readComment t = .ok token) :
    token.lexeme <+: "<!--".toList ++ t := by
  unfold readComment at h
  split at h
  · next content hc =>
    cases h
    obtain ⟨back, hb⟩ := Text.prefix_of_before? hc
    exact ⟨back, by simp [Token.lexeme, ← hb]⟩
  · simp at h

theorem prefix_of_readSection {t : Text} {token : Token} (h : readSection t = .ok token) :
    token.lexeme <+: '<' :: '!' :: t := by
  unfold readSection at h
  split at h
  · next hs =>
    split at h
    · next content hc =>
      cases h
      obtain ⟨tail, rfl⟩ := List.isPrefixOf_iff_prefix.1 hs
      obtain ⟨back, hb⟩ := Text.prefix_of_before? hc
      rw [List.drop_left] at hb
      exact ⟨back, by simp [Token.lexeme, ← hb]⟩
    · simp at h
  · simp at h

theorem prefix_of_readDeclaration {t : Text} {token : Token} (h : readDeclaration t = .ok token) :
    token.lexeme <+: '<' :: '!' :: t := by
  unfold readDeclaration at h
  split at h
  · split at h
    · next content hc =>
      dsimp only at h
      split at h
      · simp at h
      · cases h
        obtain ⟨back, hb⟩ := prefix_of_beforeBalance? hc
        refine ⟨back, ?_⟩
        have := List.take_append_drop declarationStart.length t
        rw [← hb] at this
        simpa [Token.lexeme] using this
    · simp at h
  · simp at h

theorem prefix_of_readExclamation {t : Text} {token : Token} (h : readExclamation t = .ok token) :
    token.lexeme <+: '<' :: '!' :: t := by
  unfold readExclamation at h
  split at h
  · exact prefix_of_readComment h
  · simp at h
  · exact prefix_of_readSection h
  · exact prefix_of_readDeclaration h
  · exact prefix_of_readDeclaration h
  · simp at h

theorem prefix_of_readInstruction {t : Text} {token : Token} (h : readInstruction t = .ok token) :
    token.lexeme <+: '<' :: '?' :: t := by
  unfold readInstruction at h
  split at h
  · simp at h
  · split at h
    · next content hc =>
      cases h
      obtain ⟨back, hb⟩ := Text.prefix_of_before? hc
      exact ⟨back, by simp [Token.lexeme, ← hb]⟩
    · simp at h

theorem prefix_of_readEndTag {t : Text} {token : Token} (h : readEndTag t = .ok token) :
    token.lexeme <+: '<' :: '/' :: t := by
  unfold readEndTag at h
  split at h
  · next body hb =>
    cases h
    obtain ⟨back, hb⟩ := Token.prefix_of_beforeTagEnd? hb
    exact ⟨back, by simp [← hb]⟩
  · simp at h

theorem prefix_of_readStartTag {t : Text} {token : Token} (h : readStartTag t = .ok token) :
    token.lexeme <+: '<' :: t := by
  unfold readStartTag at h
  split at h
  · next body hb =>
    cases h
    obtain ⟨back, hb⟩ := Token.prefix_of_beforeTagEnd? hb
    refine ⟨back, ?_⟩
    split
    · next hl =>
      obtain ⟨front, rfl⟩ := List.getLast?_eq_some_iff.1 hl
      simp [← hb]
    · simp [← hb]
  · simp at h

/-- What is read from some markup is a beginning of it. -/
theorem prefix_of_read {c : Char} {t : Text} {token : Token} (h : read c t = .ok token) :
    token.lexeme <+: c :: t := by
  unfold read at h
  split at h
  · next hc =>
    subst hc
    unfold readMarkup at h
    split at h
    · exact prefix_of_readExclamation h
    · exact prefix_of_readInstruction h
    · exact prefix_of_readEndTag h
    · exact prefix_of_readStartTag h
  · cases h
    simpa [Token.lexeme] using List.takeWhile_prefix _

/-! ### End tags -/

theorem readExclamation_ne_endTag (t name others : Text) :
    readExclamation t ≠ .ok (.endTag name others) := by
  intro h
  unfold readExclamation readComment readSection readDeclaration at h
  repeat' split at h
  all_goals cases h

theorem readInstruction_ne_endTag (t name others : Text) :
    readInstruction t ≠ .ok (.endTag name others) := by
  intro h
  unfold readInstruction at h
  repeat' split at h
  all_goals cases h

theorem readStartTag_ne_endTag (t name others : Text) :
    readStartTag t ≠ .ok (.endTag name others) := by
  intro h
  unfold readStartTag at h
  split at h
  · have htoken := Except.ok.inj h
    split at htoken <;> cases htoken
  · cases h

/-- What follows the name in an end tag is white space. -/
theorem gaps_of_read {c : Char} {t name others : Text} (h : read c t = .ok (.endTag name others)) :
    others.all isGap = true := by
  unfold read at h
  split at h
  · unfold readMarkup at h
    split at h
    · exact absurd h (readExclamation_ne_endTag _ _ _)
    · exact absurd h (readInstruction_ne_endTag _ _ _)
    · unfold readEndTag at h
      split at h
      · cases h
        rw [List.all_reverse, List.all_takeWhile]
      · cases h
    · exact absurd h (readStartTag_ne_endTag _ _ _)
  · cases h

/-! ### The tokenizer -/

/-- A reader: what it has left, and how far it has read. -/
structure Reader where
  rest : Text
  position : Nat

/-- Reads the token at the place of a reader. -/
def next (r : Reader) : Except Markup.Failure (Option (Token × Reader)) :=
  match r.rest with
  | [] => .ok none
  | c :: t =>
    match read c t with
    | .error failure => .error ⟨failure.problem.message, r.position + failure.distance⟩
    | .ok token =>
      .ok (some (token,
        ⟨(c :: t).drop token.lexeme.length, r.position + token.lexeme.size⟩))

/-- A token that stands at the place of a reader is read. -/
theorem next_of_read {r : Reader} {c : Char} {t : Text} {token : Token} (hr : r.rest = c :: t)
    (h : read c t = .ok token) :
    next r = .ok (some (token,
      ⟨(c :: t).drop token.lexeme.length, r.position + token.lexeme.size⟩)) := by
  simp only [next, hr, h]

theorem next_of_read_error {r : Reader} {c : Char} {t : Text} {failure : Failure}
    (hr : r.rest = c :: t) (h : read c t = .error failure) :
    next r = .error ⟨failure.problem.message, r.position + failure.distance⟩ := by
  simp only [next, hr, h]

/-- A text without the byte order mark at its start. -/
def unmarked (t : Text) : Text := if t.head? = some byteOrderMark then t.tail else t

theorem size_unmarked_le (t : Text) : (unmarked t).size ≤ t.size := by
  unfold unmarked
  split
  · cases t with
    | nil => exact Nat.le_refl _
    | cons c t => exact Nat.le_add_left _ _
  · exact Nat.le_refl _

/-- What a reader reads stands in front of what it has left then. -/
theorem read_of_next {r r' : Reader} {token : Token} (h : next r = .ok (some (token, r'))) :
    r.rest = token.lexeme ++ r'.rest ∧ r'.position = r.position + token.lexeme.size ∧
      ∃ c t, read c t = .ok token := by
  unfold next at h
  split at h
  · cases h
  · next c t hrest =>
    cases hread : read c t with
    | error failure =>
      rw [hread] at h
      cases h
    | ok token' =>
      rw [hread] at h
      cases h
      obtain ⟨back, hback⟩ := prefix_of_read hread
      refine ⟨?_, rfl, c, t, hread⟩
      rw [hrest, ← hback, List.drop_left]

end Lexer

/-- The tokenizer that reads templates when the program runs. -/
def Tokenizer.standard : Tokenizer where
  Reader := Lexer.Reader
  ofText t := ⟨Lexer.unmarked t, 0⟩
  rest := Lexer.Reader.rest
  position := Lexer.Reader.position
  next := Lexer.next
  position_ofText _ := rfl
  rest_ofText h := if_neg h
  size_rest_ofText_le := Lexer.size_unmarked_le
  rest_of_next h := (Lexer.read_of_next h).1
  position_of_next h := (Lexer.read_of_next h).2.1
  gaps_of_next h := by
    obtain ⟨-, -, c, t, hread⟩ := Lexer.read_of_next h
    exact Lexer.gaps_of_read hread
  rest_of_end {r} h := by
    unfold Lexer.next at h
    split at h
    · next hrest => exact hrest
    · next c t hrest =>
      cases hread : Lexer.read c t with
      | error failure =>
        rw [hread] at h
        cases h
      | ok token =>
        rw [hread] at h
        cases h

end BoundTemplate.Markup
