import BoundTemplate.Script.Cursor

/-!
# Escape sequences

What follows a backslash in a string, a template or a name. A sequence has a
length in characters, also when it is wrong: reading goes on behind the
characters that were understood.
-/

namespace BoundTemplate.Script

/-- The value of a hexadecimal digit. -/
def hexValue? (c : Char) : Option Nat :=
  if c.isDigit then some (c.toNat - '0'.toNat)
  else if 'a' ≤ c && c ≤ 'f' then some (c.toNat - 'a'.toNat + 10)
  else if 'A' ≤ c && c ≤ 'F' then some (c.toNat - 'A'.toNat + 10)
  else none

/-- Whether a character is a hexadecimal digit. -/
def isHexDigit (c : Char) : Bool := (hexValue? c).isSome

/-- The number that some hexadecimal digits denote. -/
def hexNumber (t : Text) : Nat := t.foldl (fun n c => n * 16 + (hexValue? c).getD 0) 0

/-- The largest code point. -/
def lastCodePoint : Nat := 0x10FFFF

/-- The result of reading an escape sequence. -/
structure Escape where
  /-- The number of characters read. -/
  length : Nat
  /-- The code point that a right sequence denotes; it may be half of a pair. -/
  value? : Option Nat
  deriving DecidableEq, Repr

/-- The digits of a code point between braces: they end early where the number gets too large. -/
def codePointDigits (n : Nat) : Text → Text
  | [] => []
  | c :: t =>
    match hexValue? c with
    | none => []
    | some d => if n * 16 + d > lastCodePoint then [c] else c :: codePointDigits (n * 16 + d) t

/-- A code point between braces, read behind the opening one. -/
def codePointEscape (t : Text) : Escape :=
  let digits := codePointDigits 0 t
  let n := hexNumber digits
  if digits.isEmpty || n > lastCodePoint then ⟨digits.length, none⟩
  else
    match t.drop digits.length with
    | '}' :: _ => ⟨digits.length + 1, some n⟩
    | _ => ⟨digits.length, none⟩

/-- Four hexadecimal digits. -/
def fourDigits (t : Text) : Escape :=
  let digits := (t.take 4).takeWhile isHexDigit
  if digits.length = 4 then ⟨4, some (hexNumber digits)⟩ else ⟨digits.length, none⟩

/-- What follows a backslash and a `u`: a code point between braces, or four digits. -/
def unicodeEscape (t : Text) : Escape :=
  match t with
  | '{' :: t =>
    let e := codePointEscape t
    ⟨e.length + 1, e.value?⟩
  | _ => fourDigits t

/-- Whether what follows a backslash in a string is right, and its length. -/
def stringEscape : Text → Nat × Bool
  | [] => (0, true)
  | '\r' :: '\n' :: _ => (2, true)
  | 'x' :: t =>
    let digits := (t.take 2).takeWhile isHexDigit
    (1 + digits.length, digits.length == 2)
  | 'u' :: t =>
    let e := unicodeEscape t
    (1 + e.length, e.value?.isSome)
  | _ :: _ => (1, true)

/-- Whether what follows a backslash in a template is right, and its length: digits are wrong, apart
from a zero that no digit follows. -/
def templateEscape (t : Text) : Nat × Bool :=
  match t with
  | c :: rest =>
    if c.isDigit then (1, c == '0' && !rest.head?.any Char.isDigit) else stringEscape t
  | [] => stringEscape t

end BoundTemplate.Script
