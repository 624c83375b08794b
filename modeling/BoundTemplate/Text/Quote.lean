import BoundTemplate.Text.Bytes

/-!
# Quotes

A literal stands between two quotes of one kind, or, as the value of an
attribute may, between none.
-/

namespace BoundTemplate

/-- What a literal stands between. -/
inductive Quote where
  | double
  | single
  /-- No quotes. -/
  | unquoted
  deriving DecidableEq, Repr

namespace Quote

/-- The kind of a quote. -/
def ofChar? (c : Char) : Option Quote :=
  if c = '"' then some double else if c = '\'' then some single else none

/-- The kind of a quote that is given as a byte. -/
def ofByte? (b : UInt8) : Option Quote :=
  if b = 34 then some double else if b = 39 then some single else none

end Quote

end BoundTemplate
