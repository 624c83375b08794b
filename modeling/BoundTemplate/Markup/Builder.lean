import BoundTemplate.Text.Locate
import BoundTemplate.Markup.Node
import BoundTemplate.Markup.RawText
import BoundTemplate.Markup.Tokenizer

/-!
# Building the tree of markup

A builder has read some tokens: it holds the reader of what is left of the markup,
the stack of the elements that are open and the nodes that are complete. Each token
adds a node, opens an element or ends some. Behind a bare `<` and behind raw text the
reader is thrown away for one of the text from there on; still every step goes on in
the text.

Offsets behind a byte order mark that is not counted lie too low, so a span may begin
inside a character; where the text of such a span is needed, that fails.
-/

namespace BoundTemplate.Markup

/-- What has been built from the tokens read so far. -/
structure Builder (tokenizer : Tokenizer) (source : Text) where
  /-- The offset in the source at which the text of the reader starts. -/
  base : Nat
  reader : tokenizer.Reader
  /-- The open elements, innermost first. -/
  stack : List OpenElement
  /-- The nodes outside of all elements, latest first. -/
  roots : List Node
  /-- What is wrong so far, latest first. -/
  problems : List (Span × Problem)
  /-- What is read and what is left lie in the source. -/
  within : base + tokenizer.position reader + (tokenizer.rest reader).size ≤ source.size

/-- A reader of what stands behind an offset lies in the text. -/
theorem Tokenizer.within_ofText (tokenizer : Tokenizer) {source : Text} {offset : Nat}
    (h : source.isBoundary offset = true) :
    let reader := tokenizer.ofText (source.dropBytes offset)
    offset + tokenizer.position reader + (tokenizer.rest reader).size ≤ source.size := by
  obtain ⟨front, back, rfl, rfl⟩ := Text.isBoundary_iff.1 h
  have hle := tokenizer.size_rest_ofText_le back
  simp only [Text.dropBytes_size_append, tokenizer.position_ofText, Text.size_append]
  omega

namespace Builder

variable {tokenizer : Tokenizer} {source : Text}

/-- The offset at which the next token is located. -/
def offset (b : Builder tokenizer source) : Nat := b.base + tokenizer.position b.reader

/-- What is left to read. -/
def rest (b : Builder tokenizer source) : Text := tokenizer.rest b.reader

variable (tokenizer source) in
/-- The builder that has read nothing of a text. -/
def start : Builder tokenizer source where
  base := 0
  reader := tokenizer.ofText source
  stack := []
  roots := []
  problems := []
  within := by
    rw [tokenizer.position_ofText, Nat.add_zero, Nat.zero_add]
    exact tokenizer.size_rest_ofText_le source

/-- Reads a token: what it is, and the builder behind it, to which it is not added yet. -/
def next (b : Builder tokenizer source) :
    Except Failure (Option (Token × Builder tokenizer source)) :=
  match h : tokenizer.next b.reader with
  | .error failure => .error failure
  | .ok none => .ok none
  | .ok (some (token, reader)) =>
    have within := by
      have hrest := congrArg Text.size (tokenizer.rest_of_next h)
      have hposition := tokenizer.position_of_next h
      have := b.within
      rw [Text.size_append] at hrest
      omega
    .ok (some (token, { b with reader, within }))

/-- Goes on reading at an offset of the text. -/
def restart (offset : Nat) (b : Builder tokenizer source) :
    Except LocationError (Builder tokenizer source) :=
  let place := min offset source.size
  match h : source.checkBoundary place with
  | .error e => .error e
  | .ok _ =>
    .ok { b with
      base := place
      reader := tokenizer.ofText (source.dropBytes place)
      within := tokenizer.within_ofText (Text.isBoundary_of_checkBoundary h) }

/-- Adds a node to the innermost open element. -/
def push (node : Node) (b : Builder tokenizer source) : Builder tokenizer source :=
  match b.stack with
  | [] => { b with roots := node.addTo b.roots }
  | e :: stack => { b with stack := { e with children := node.addTo e.children } :: stack }

/-- Records what is wrong with a span. -/
def report (span : Span) (problem : Problem) (b : Builder tokenizer source) :
    Builder tokenizer source :=
  { b with problems := (span, problem) :: b.problems }

/-- Ends the innermost open element. -/
def closeInnermost (innerStop stop : Nat) (b : Builder tokenizer source) :
    Builder tokenizer source :=
  match b.stack with
  | [] => b
  | e :: stack => { b with stack := stack }.push (e.close innerStop stop)

/-- Ends some open elements at an offset, without end tags. -/
def closeAt (offset : Nat) :
    Nat → Builder tokenizer source → Builder tokenizer source
  | 0, b => b
  | n + 1, b => closeAt offset n (b.closeInnermost offset offset)

/-- Where the attributes of a tag end: in front of its `>`. -/
def attributesStop (source : Text) (nameStop stop : Nat) : Nat :=
  if nameStop < stop && source.bytes[stop - 1]? == some '>'.toUInt8 then stop - 1 else stop

/-- Refuses the value of an attribute if the text in which its quote is looked for, through the end
of the tag, starts or ends inside a character. -/
def checkValue (source : Text) (stop : Nat) (a : Attribute) : Except LocationError Unit :=
  match a.value with
  | none | some (_, .unquoted) => .ok ()
  | some (value, _) => do
    source.checkBoundary value.start
    source.checkBoundary stop

/-- Reads the parts of a tag that starts with a name of some bytes. -/
def readTag (source : Text) (nameSize : Nat) (range : Span) : Except LocationError StartTag := do
  let name : Span := ⟨range.start + 1, range.start + 1 + nameSize⟩
  let stop := attributesStop source name.stop range.stop
  let bytes := (source.bytes.drop name.stop).take (stop - name.stop)
  let attributes := Attribute.scan name.stop bytes
  attributes.forM (checkValue source stop)
  return ⟨range, name, attributes⟩

/-- Adds an element whose content is raw text, and goes on behind its end tag. -/
def pushRaw (name : Text) (tag : StartTag) (b : Builder tokenizer source) :
    Except LocationError (Builder tokenizer source) := do
  let (contentStop, stop) ← RawText.ends source name tag.range.stop
  let content : Span := ⟨tag.range.stop, contentStop⟩
  let children := if tag.range.stop < contentStop then [Node.text content] else []
  (b.push (tag.element children contentStop stop)).restart stop

/-- Begins an element, which is complete if it has no content or raw text. -/
def openElement (tag : StartTag) (b : Builder tokenizer source) :
    Except LocationError (Builder tokenizer source) := do
  let name ← source.checkedSlice tag.name
  if isOneOf voidNames name then
    return b.push (tag.element [] tag.range.stop tag.range.stop)
  else if isOneOf rawNames name then b.pushRaw name tag
  else return { b with stack := ⟨tag, name, []⟩ :: b.stack }

/-- Ends the innermost open element of a name, and with it those opened after it. -/
def closeNamed (name : Text) (range : Span) (b : Builder tokenizer source) :
    Builder tokenizer source :=
  match b.stack.findIdx? fun e => e.name.sameLetters name with
  | some n => (b.closeAt range.start n).closeInnermost range.start range.stop
  | none => b.report range (.strayEndTag name)

/-- Adds a token that starts at an offset to the builder behind it. The `<` of a bare one is text,
and reading goes on behind that. -/
def add (token : Token) (start : Nat) (b : Builder tokenizer source) :
    Except LocationError (Builder tokenizer source) :=
  let range : Span := ⟨start, b.offset⟩
  if token.isBare then (b.push (.text ⟨start, start + 1⟩)).restart (start + 1)
  else
    match token with
    | .text _ _ => return b.push (.text range)
    | .comment _ => return b.push (.comment range)
    | .emptyTag name _ => do
      let tag ← readTag source name.size range
      return b.push (tag.element [] range.stop range.stop)
    | .startTag name _ => do
      let tag ← readTag source name.size range
      b.openElement tag
    | .endTag name _ => do
      let name ← source.checkedSlice ⟨start + 2, start + 2 + name.size⟩
      return b.closeNamed name range

/-- Records why no token can be read, and keeps everything from there on as text. -/
def keepRest (failure : Failure) (b : Builder tokenizer source) : Builder tokenizer source :=
  let failed := b.report (Span.empty (b.base + failure.position)) (.unreadable failure.message)
  if b.offset < source.size then failed.push (.text ⟨b.offset, source.size⟩) else failed

/-! ### Where a builder reads -/

@[simp] theorem offset_start : (start tokenizer source).offset = 0 := by
  simp only [offset, start, tokenizer.position_ofText]

variable {b b' behind : Builder tokenizer source} {token : Token}

/-- Reading a token changes the reader alone. -/
theorem exists_of_next (h : b.next = .ok (some (token, behind))) :
    ∃ reader within, tokenizer.next b.reader = .ok (some (token, reader)) ∧
      behind = { b with reader, within } := by
  unfold next at h
  split at h
  · cases h
  · cases h
  · next hread =>
    cases h
    exact ⟨_, _, hread, rfl⟩

theorem rest_of_next (h : b.next = .ok (some (token, behind))) :
    b.rest = token.lexeme ++ behind.rest := by
  obtain ⟨reader, within, hread, rfl⟩ := exists_of_next h
  exact tokenizer.rest_of_next hread

theorem offset_of_next (h : b.next = .ok (some (token, behind))) :
    behind.offset = b.offset + token.lexeme.size := by
  obtain ⟨reader, within, hread, rfl⟩ := exists_of_next h
  simp only [offset, tokenizer.position_of_next hread, Nat.add_assoc]

/-- Where reading ends nothing is left. -/
theorem rest_of_end (h : b.next = .ok none) : b.rest = [] := by
  unfold next at h
  split at h
  · cases h
  · next hread => exact tokenizer.rest_of_end hread
  · cases h

/-- No builder is beyond the end of the text. -/
theorem offset_le_size (b : Builder tokenizer source) : b.offset ≤ source.size :=
  Nat.le_trans (Nat.le_add_right _ _) b.within

/-- A token that is read has bytes. -/
theorem offset_lt_of_next (h : b.next = .ok (some (token, behind))) : b.offset < behind.offset := by
  have hpos := Nat.pos_of_ne_zero fun h0 => token.lexeme_ne_nil (Text.size_eq_zero.1 h0)
  rw [offset_of_next h]
  omega

@[simp] theorem offset_push (node : Node) (b : Builder tokenizer source) :
    (b.push node).offset = b.offset := by
  unfold push
  split <;> rfl

@[simp] theorem offset_closeInnermost (i s : Nat) (b : Builder tokenizer source) :
    (b.closeInnermost i s).offset = b.offset := by
  unfold closeInnermost
  split
  · rfl
  · exact offset_push _ _

@[simp] theorem offset_closeAt (o n : Nat) (b : Builder tokenizer source) :
    (b.closeAt o n).offset = b.offset := by
  induction n generalizing b with
  | zero => rfl
  | succ n ih => simp [closeAt, ih]

@[simp] theorem offset_closeNamed (name : Text) (range : Span) (b : Builder tokenizer source) :
    (b.closeNamed name range).offset = b.offset := by
  unfold closeNamed
  split
  · simp
  · rfl

/-- Reading goes on where it is told to, at the end of the text at the latest. -/
theorem offset_of_restart {offset : Nat} (h : b.restart offset = .ok b') :
    b'.offset = min offset source.size := by
  unfold restart at h
  dsimp only at h
  split at h
  · cases h
  · cases h
    simp only [Builder.offset, tokenizer.position_ofText, Nat.add_zero]

/-- Reading goes on behind an element with raw text. -/
theorem le_offset_of_pushRaw {name : Text} {tag : StartTag} (h : b.pushRaw name tag = .ok b')
    (hb : tag.range.stop ≤ source.size) : tag.range.stop ≤ b'.offset := by
  obtain ⟨stops, hends, h⟩ := exists_of_bind_eq_ok h
  rw [offset_of_restart h]
  exact Nat.le_min.2 ⟨RawText.le_of_ends hends, hb⟩

/-- Reading goes on behind the start tag of an element at least. -/
theorem le_offset_of_openElement {tag : StartTag} (h : b.openElement tag = .ok b')
    (hb : b.offset = tag.range.stop) : tag.range.stop ≤ b'.offset := by
  obtain ⟨name, -, h⟩ := exists_of_bind_eq_ok h
  split at h
  · cases h
    exact Nat.le_of_eq (hb.symm.trans (offset_push _ b).symm)
  · split at h
    · exact le_offset_of_pushRaw h (hb ▸ b.offset_le_size)
    · cases h
      exact Nat.le_of_eq hb.symm

/-- A tag that is read has the range that was given. -/
theorem range_of_readTag {n : Nat} {range : Span} {tag : StartTag}
    (h : readTag source n range = .ok tag) : tag.range = range := by
  obtain ⟨u, -, h⟩ := exists_of_bind_eq_ok h
  cases h
  rfl

/-- Behind a token that is added, reading goes on in the text. -/
theorem offset_lt_of_add (hread : b.next = .ok (some (token, behind)))
    (h : behind.add token b.offset = .ok b') : b.offset < b'.offset := by
  have hlt := offset_lt_of_next hread
  have hle := behind.offset_le_size
  unfold add at h
  dsimp only at h
  split at h
  · rw [offset_of_restart h]
    exact Nat.lt_min.2 ⟨Nat.lt_succ_self _, Nat.lt_of_lt_of_le hlt hle⟩
  · cases token with
    | text | comment =>
      cases h
      rwa [offset_push]
    | emptyTag name others =>
      obtain ⟨tag, -, h⟩ := exists_of_bind_eq_ok h
      cases h
      rwa [offset_push]
    | startTag name others =>
      obtain ⟨tag, htag, h⟩ := exists_of_bind_eq_ok h
      have hrange := range_of_readTag htag
      have hopen := le_offset_of_openElement h (by rw [hrange])
      rw [hrange] at hopen
      exact Nat.lt_of_lt_of_le hlt hopen
    | endTag name others =>
      obtain ⟨name, -, h⟩ := exists_of_bind_eq_ok h
      cases h
      rwa [offset_closeNamed]

end Builder

end BoundTemplate.Markup
