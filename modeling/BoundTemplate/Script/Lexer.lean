import BoundTemplate.Script.Lexer.Blank
import BoundTemplate.Script.Lexer.Quoted
import BoundTemplate.Script.Lexer.Number
import BoundTemplate.Script.Lexer.Name

/-!
# The next token

Reading a token skips the blanks in front of it and takes the longest sign, name,
number or quoted text that starts there. The tokens that depend on what is being
read around them (patterns, the parts of a template behind a hole, the operators
that start with `>`) are read again on demand, from the start of a token.
-/

namespace BoundTemplate.Script

namespace Cursor

variable {script : Text}

/-- The longest of some signs that a text starts with. -/
def sign? (signs : List Sign) (t : Text) : Option Sign :=
  signs.find? fun s => s.text.toList.isPrefixOf t

/-- Whether a question mark, a dot and a digit come next: the dot belongs to the number. -/
def atConditionalNumber (c : Cursor script) : Bool :=
  c.looksAt "?." && (c.skip 2).nextIs Char.isDigit

/-- The kind of the token at a cursor that no blank follows, whether it is escaped, and the cursor
behind it. -/
def readKind (c : Cursor script) : Kind × Bool × Cursor script :=
  match c.rest with
  | [] => (.eof, false, c)
  | ch :: t =>
    if isNameStart ch || ch == '\\' then
      let part := readName true ⟨[], false, c⟩
      (.ofSpelling part.spelling, part.escaped, part.cursor)
    else if ch.isDigit then
      let (kind, next) := c.readNumber
      (kind, false, next)
    else if ch == '.' && t.head?.any Char.isDigit then
      let (kind, next) := (c.skip 1).fractionOnly
      (kind, false, next)
    else if ch == '"' || ch == '\'' then
      let (kind, next) := (c.skip 1).readString ch c.offset
      (kind, false, next)
    else if ch == '`' then
      let (kind, next) := (c.skip 1).readTemplate .whole .head c.offset true
      (kind, false, next)
    else if ch == '#' then (c.skip 1).readPrivateName
    else if c.atConditionalNumber then (.sign .question, false, c.skip 1)
    else
      match sign? Sign.scanned c.rest with
      | some s => (.sign s, false, c.skip s.text.length)
      | none => (.unknown, false, (c.skip 1).report (.character ch) c.offset)

/-- A string has its quotes around it. -/
theorem quoted_readString {c : Cursor script} {quote : Char} {t : Text}
    (hquote : quote = '"' ∨ quote = '\'') (hrest : c.rest = quote :: t)
    (h : ((c.skip 1).readString quote c.offset).1 = .string) :
    Quoted script ⟨c.offset, ((c.skip 1).readString quote c.offset).2.offset⟩ := by
  obtain ⟨front, hscript, hsize⟩ := c.stands
  obtain ⟨content, hcontent, hoffset⟩ := closes_readString h
  have hskip : (c.skip 1).rest = t := by simp only [skip, hrest, List.drop_one, List.tail_cons]
  have hbehind : (c.skip 1).offset = c.offset + quote.utf8Size := by
    simp only [skip, hrest, List.take_succ_cons, List.take_zero, Text.size, Nat.add_zero]
  rw [hskip] at hcontent
  refine ⟨quote, content, hquote, front,
    ((c.skip 1).readString quote c.offset).2.rest, ?_, ?_⟩
  · refine hscript.trans ?_
    rw [hrest, hcontent]
    simp only [List.append_assoc, List.cons_append, List.nil_append]
  · rw [hoffset, hbehind, hsize, Text.size]
    simp only [Span.mk.injEq, true_and]
    omega

/-- A sign that a text starts with is a beginning of it. -/
theorem prefix_of_sign? {signs : List Sign} {t : Text} {s : Sign} (h : sign? signs t = some s) :
    s.text.toList <+: t := by
  have hfound := List.find?_some h
  exact List.isPrefixOf_iff_prefix.1 hfound

/-- What a delimited token is: a string with its quotes, or a sign with its characters. -/
def Delimited (c : Cursor script) (kind : Kind) (next : Cursor script) : Prop :=
  (kind = .string → Quoted script ⟨c.offset, next.offset⟩) ∧
    ∀ s, kind = .sign s → script.Holds ⟨c.offset, next.offset⟩ s.text.toList

theorem Delimited.of_isDelimited {c next : Cursor script} {kind : Kind}
    (h : kind.isDelimited = false) : c.Delimited kind next := by
  refine ⟨?_, ?_⟩
  · rintro rfl
    cases h
  · rintro s rfl
    cases h

/-- A token that is read as a string has its quotes, and one that is read as a sign its characters:
what starts with no quote is no string. -/
theorem delimited_readKind (c : Cursor script) : c.Delimited c.readKind.1 c.readKind.2.2 := by
  unfold readKind
  split
  · exact .of_isDelimited rfl
  · next ch t hrest =>
    split
    · exact .of_isDelimited (Kind.isDelimited_ofSpelling _)
    split
    · exact .of_isDelimited (isDelimited_readNumber c)
    split
    · exact .of_isDelimited (isDelimited_endFraction _)
    split
    · next hquote =>
      refine ⟨fun h => quoted_readString ?_ hrest h, fun s h => ?_⟩
      · exact (Bool.or_eq_true_iff.1 hquote).imp beq_iff_eq.1 beq_iff_eq.1
      · exact absurd h (readString_ne_sign s)
    split
    · exact .of_isDelimited (isDelimited_readTemplate _ _ _ _ _)
    split
    · exact .of_isDelimited (isDelimited_readPrivateName _)
    split
    · next hnumber =>
      constructor
      · intro h
        cases h
      · rintro s ⟨⟩
        have hmark := List.isPrefixOf_iff_prefix.1 (Bool.and_eq_true_iff.1 hnumber).1
        exact holds_skip_front ((List.prefix_append ['?'] ['.']).trans hmark)
    split
    · next s hs =>
      constructor
      · intro h
        cases h
      · rintro s ⟨⟩
        exact holds_skip_front (prefix_of_sign? hs)
    · exact .of_isDelimited rfl

/-- The next token and the cursor behind it. A comment that does not end is the end of the script,
which then starts at the comment. -/
def readToken (c : Cursor script) : Token script × Cursor script :=
  let blanks := c.blankEnd
  let c := c.skip blanks.length
  match blanks.open? with
  | some start =>
    (⟨.eof, start, c.offset, blanks.newLine, false, nofun, nofun⟩,
      c.report .unterminatedComment start)
  | none =>
    let read := c.readKind
    (⟨read.1, c.offset, read.2.2.offset, blanks.newLine, read.2.1, c.delimited_readKind.1,
      c.delimited_readKind.2⟩, read.2.2)

/-- The cursor stands behind the token that it has read. -/
theorem stop_readToken (c : Cursor script) : c.readToken.1.stop = c.readToken.2.offset := by
  unfold readToken
  dsimp only
  split <;> rfl

/-- Between a cursor and the token that it reads stand only blanks. -/
theorem apart_readToken (c : Cursor script) : Apart script c.offset c.readToken.1.start := by
  obtain ⟨front, hscript, hsize⟩ := c.stands
  have hskips : c.blankEnd.Skips 0 c.offset c.rest .space := skips_blankEnd ..
  obtain ⟨gap, rest, hrest, hblanks, hreaches⟩ := hskips
  refine ⟨front, gap, rest, ?_, hsize, ?_, hblanks⟩
  · rw [hscript, hrest, List.append_assoc]
  · unfold BlankEnd.Reaches at hreaches
    unfold readToken
    dsimp only
    split at hreaches
    · next hopen =>
      have htake : c.rest.take c.blankEnd.length = gap := by
        rw [hreaches, Nat.zero_add, hrest, List.take_left]
      rw [hopen]
      show Text.size (front ++ gap) = c.offset + Text.size (c.rest.take c.blankEnd.length)
      rw [htake, Text.size_append, hsize]
    · next start hopen =>
      rw [hopen]
      dsimp only
      rw [hreaches, Text.size_append, hsize]

/-- The longest operator that starts with the `>` in front of a cursor. -/
def angledSign (c : Cursor script) : Sign := (sign? Sign.angled ('>' :: c.rest)).getD .greater

/-- The cursor behind that operator. -/
def behindAngled (c : Cursor script) : Cursor script := c.skip (c.angledSign.text.length - 1)

/-- An operator that starts with `>` stands from there to the cursor behind it. -/
theorem holds_angled {c : Cursor script} {start stop : Nat} (hstop : stop = c.offset)
    (h : script.Holds ⟨start, stop⟩ ['>']) :
    script.Holds ⟨start, c.behindAngled.offset⟩ c.angledSign.text.toList := by
  have hprefix : c.angledSign.text.toList <+: '>' :: c.rest := by
    unfold angledSign
    cases hsign : sign? Sign.angled ('>' :: c.rest) with
    | none => exact List.prefix_append ['>'] c.rest
    | some s => exact prefix_of_sign? hsign
  have hlength : c.angledSign.text.length = c.angledSign.text.toList.length :=
    String.length_toList.symm
  rw [behindAngled, hlength]
  rcases List.prefix_cons_iff.1 hprefix with hnil | ⟨more, hmore, hrest⟩
  · exact absurd hnil (Sign.text_ne_nil _)
  · subst hstop
    rw [hmore, List.length_cons, Nat.add_sub_cancel]
    exact h.append (holds_skip_front hrest)

end Cursor

end BoundTemplate.Script
