import BoundTemplate.Script.Lexer.Escape

/-!
# Names

A name is made of the characters of names and of escape sequences for them. Its
spelling, with every sequence replaced by its character, decides whether it is a
word of the language.
-/

namespace BoundTemplate.Script

/-- The character of a name that the code point of an escape sequence denotes. Half of a pair
denotes no character. -/
def escapedNameCharacter (first : Bool) (value? : Option Nat) : Except Problem Char :=
  match value? with
  | some n =>
    if h : n.isValidChar then
      let c := Char.ofNatAux n h
      if (if first then isNameStart c else isNamePart c) then .ok c else .error (.character c)
    else .error .nameEscape
  | none => .error .nameEscape

/-- What follows a backslash in a name: the number of characters read and the character that they
denote. -/
def nameEscape (first : Bool) : Text → Nat × Except Problem Char
  | 'u' :: t =>
    let e := unicodeEscape t
    (1 + e.length, escapedNameCharacter first e.value?)
  | _ => (1, .error .nameEscape)

variable {script : Text}

/-- What was read of a name. -/
structure NamePart (script : Text) where
  /-- The characters read so far. -/
  spelling : Text
  /-- Whether one of them was an escape sequence. -/
  escaped : Bool
  /-- Where reading goes on. -/
  cursor : Cursor script
  deriving Repr

namespace NamePart

/-- A name with an escape sequence added, `start` being the offset behind its backslash. A character
that is no part of a name is reported behind the sequence, any other mistake at its start. -/
def addEscape (part : NamePart script) (outcome : Except Problem Char) (start : Nat)
    (next : Cursor script) : NamePart script :=
  match outcome with
  | .ok c => ⟨part.spelling ++ [c], true, next⟩
  | .error (.character c) => ⟨part.spelling, true, next.report (.character c) next.offset⟩
  | .error problem => ⟨part.spelling, true, next.report problem start⟩

@[simp] theorem rest_cursor_addEscape (part : NamePart script) (outcome : Except Problem Char)
    (start : Nat) (next : Cursor script) :
    (part.addEscape outcome start next).cursor.rest = next.rest := by
  unfold addEscape
  split <;> rfl

end NamePart

namespace Cursor

/-- A name, read at one of its characters. -/
def readName (first : Bool) (part : NamePart script) : NamePart script :=
  match _h : part.cursor.rest with
  | [] => part
  | c :: t =>
    if c == '\\' then
      let e := nameEscape first t
      readName false
        (part.addEscape e.2 (part.cursor.offset + 1) (part.cursor.skip (1 + e.1)))
    else if isNamePart c then
      readName false ⟨part.spelling ++ [c], part.escaped, part.cursor.skip 1⟩
    else part
termination_by part.cursor.rest.length
decreasing_by
  · simp only [NamePart.rest_cursor_addEscape, Cursor.skip, _h, List.length_drop, List.length_cons]
    omega
  · simp [Cursor.skip, _h]

/-- A private name, read behind its mark; without a name, what stands there is reported, and the
mark is read as the end of the script. -/
def readPrivateName (c : Cursor script) : Kind × Bool × Cursor script :=
  if c.nextIs (fun ch => isNameStart ch || ch == '\\') then
    let part := readName true ⟨[], false, c⟩
    (.privateName, part.escaped, part.cursor)
  else (.eof, false, c.reportNext)

/-- A private name is no string and no sign. -/
theorem isDelimited_readPrivateName (c : Cursor script) :
    c.readPrivateName.1.isDelimited = false := by
  unfold readPrivateName
  split <;> rfl

end Cursor

end BoundTemplate.Script
