import BoundTemplate.Script.Lexer.Escape

/-!
# Numbers

A number is an integer in one of four bases, or has a fraction or an exponent.
Underscores may stand between two digits. What follows a number is neither a
digit nor the start of a name; a number that goes on like this is read as the
end of the script, and so is one that its base leaves without a digit.
-/

namespace BoundTemplate.Script

namespace Cursor

variable {script : Text}

/-- Digits and underscores; an underscore without a digit behind it is reported at what stands
there. The flag says that nothing was reported. -/
def moreDigits (isDigit : Char → Bool) (c : Cursor script) : Cursor script × Bool :=
  match _h : c.rest with
  | '_' :: d :: _ =>
    if isDigit d then moreDigits isDigit (c.skip 2) else ((c.skip 1).reportNext, false)
  | ['_'] => ((c.skip 1).reportNext, false)
  | d :: _ => if isDigit d then moreDigits isDigit (c.skip 1) else (c, true)
  | [] => (c, true)
termination_by c.rest.length
decreasing_by
  · simp only [Cursor.skip, _h, List.length_drop, List.length_cons]
    omega
  · simp [Cursor.skip, _h]

/-- At least one digit; if there is none, what stands there is reported. -/
def digits (isDigit : Char → Bool) (c : Cursor script) : Cursor script × Bool :=
  if c.nextIs isDigit then (c.skip 1).moreDigits isDigit else (c.reportNext, false)

/-- The number ends here, unless it runs into a digit or a name, which is skipped. -/
def endNumber (kind : Kind) (c : Cursor script) : Kind × Cursor script :=
  if c.nextIs (fun ch => ch.isDigit || isNameStart ch) then
    (.eof, (c.skipWhile isNamePart).report .numberEnd c.offset)
  else (kind, c)

/-- The end of a number makes no string or sign of it. -/
theorem isDelimited_endNumber {kind : Kind} (h : kind.isDelimited = false) (c : Cursor script) :
    (c.endNumber kind).1.isDelimited = false := by
  unfold endNumber
  split
  · rfl
  · exact h

/-- The exponent of a number, read behind its letter; without a digit the number is not sound. -/
def exponent (c : Cursor script) : Kind × Cursor script :=
  let signed := if c.nextIs (fun ch => ch == '-' || ch == '+') then c.skip 1 else c
  (.number .float false (signed.nextIs Char.isDigit), (signed.digits Char.isDigit).1)

/-- Whether an exponent comes next. -/
def atExponent (c : Cursor script) : Bool := c.nextIs fun ch => ch == 'e' || ch == 'E'

/-- The exponent and the end of a number, read behind the letter of the exponent. -/
def endExponent (c : Cursor script) : Kind × Cursor script :=
  let (kind, next) := c.exponent
  next.endNumber kind

/-- What follows the digits behind a point. -/
def endFraction (c : Cursor script) : Kind × Cursor script :=
  if c.atExponent then (c.skip 1).endExponent else c.endNumber (.number .float false true)

theorem isDelimited_endFraction (c : Cursor script) : c.endFraction.1.isDelimited = false := by
  unfold endFraction
  split
  · exact isDelimited_endNumber rfl _
  · exact isDelimited_endNumber rfl _

/-- A number, read behind a point that digits have to follow. -/
def fractionOnly (c : Cursor script) : Kind × Cursor script := (c.digits Char.isDigit).1.endFraction

/-- A number, read behind the point that follows its integral digits. -/
def fraction (c : Cursor script) : Kind × Cursor script :=
  (if c.nextIs Char.isDigit then (c.digits Char.isDigit).1 else c).endFraction

/-- A number in decimal notation, read behind its first digit. -/
def decimal (c : Cursor script) : Kind × Cursor script :=
  let c := (c.moreDigits Char.isDigit).1
  if c.nextIs (· == '.') then (c.skip 1).fraction
  else if c.nextIs (· == 'n') then (c.skip 1).endNumber (.number .decimal true true)
  else if c.atExponent then (c.skip 1).endExponent
  else c.endNumber (.number .decimal false true)

theorem isDelimited_decimal (c : Cursor script) : c.decimal.1.isDelimited = false := by
  unfold decimal
  dsimp only
  split
  · exact isDelimited_endFraction _
  · split
    · exact isDelimited_endNumber rfl _
    · split <;> exact isDelimited_endNumber rfl _

/-- A number in another base, read behind its two-letter mark. -/
def based (form : NumberForm) (isDigit : Char → Bool) (c : Cursor script) : Kind × Cursor script :=
  let (c, right) := c.digits isDigit
  if !right then (.eof, c)
  else if c.nextIs (· == 'n') then (c.skip 1).endNumber (.number form true true)
  else c.endNumber (.number form false true)

theorem isDelimited_based (form : NumberForm) (isDigit : Char → Bool) (c : Cursor script) :
    (c.based form isDigit).1.isDelimited = false := by
  unfold based
  dsimp only
  split
  · rfl
  · split <;> exact isDelimited_endNumber rfl _

/-- A number of digits behind a zero: octal, unless one of its digits is too large for that. -/
def zeroDigits (c : Cursor script) : Kind × Cursor script :=
  let ds := c.rest.takeWhile Char.isDigit
  let octal := ds.all (· ≤ '7')
  let c := c.skip ds.length
  if !octal && c.nextIs (· == '.') then (c.skip 1).fraction
  else if !octal && c.nextIs (· == 'e') then (c.skip 1).exponent
  else c.endNumber (.number (if octal then .octal else .decimal) false true)

theorem isDelimited_zeroDigits (c : Cursor script) : c.zeroDigits.1.isDelimited = false := by
  unfold zeroDigits
  dsimp only
  split
  · exact isDelimited_endFraction _
  · split
    · rfl
    · exact isDelimited_endNumber rfl _

/-- A number that starts with a zero, read behind it. -/
def zero (c : Cursor script) : Kind × Cursor script :=
  match c.rest.head? with
  | some 'b' | some 'B' => (c.skip 1).based .binary (fun d => d == '0' || d == '1')
  | some 'o' | some 'O' => (c.skip 1).based .octal (fun d => '0' ≤ d && d ≤ '7')
  | some 'x' | some 'X' => (c.skip 1).based .hexadecimal isHexDigit
  | some 'e' | some 'E' => (c.skip 1).exponent
  | some '.' => (c.skip 1).fraction
  | some 'n' => (c.skip 1).endNumber (.number .decimal true true)
  | some d => if d.isDigit then c.zeroDigits else c.endNumber (.number .decimal false true)
  | none => (.number .decimal false true, c)

theorem isDelimited_zero (c : Cursor script) : c.zero.1.isDelimited = false := by
  unfold zero
  split
  case h_1 | h_2 | h_3 | h_4 | h_5 | h_6 => exact isDelimited_based _ _ _
  case h_7 | h_8 => rfl
  · exact isDelimited_endFraction _
  · exact isDelimited_endNumber rfl _
  · split
    · exact isDelimited_zeroDigits _
    · exact isDelimited_endNumber rfl _
  · rfl

/-- A number, read at its first digit. -/
def readNumber (c : Cursor script) : Kind × Cursor script :=
  if c.nextIs (· == '0') then (c.skip 1).zero else (c.skip 1).decimal

/-- A number is no string and no sign. -/
theorem isDelimited_readNumber (c : Cursor script) : c.readNumber.1.isDelimited = false := by
  unfold readNumber
  split
  · exact isDelimited_zero _
  · exact isDelimited_decimal _

end Cursor

end BoundTemplate.Script
