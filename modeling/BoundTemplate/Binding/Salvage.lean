import BoundTemplate.Binding.Object
import BoundTemplate.Text.Letter

/-!
# Saving an entry

An entry that is not in order still names a binding if it starts with a word or a
quoted name. Its parameter is the longest expression that can be found behind a
colon: all of the value, or the part in front of what is wrong with it.
-/

namespace BoundTemplate.Binding

namespace Salvage

/-- The name at the start of an entry, and how many characters belong to it, quotes included. -/
def name (entry : Excerpt) : Excerpt × Nat :=
  let quoted (quote : Char) (inner : Excerpt) : Excerpt × Nat :=
    let n := (inner.text.takeWhile (· != quote)).length
    (inner.take n, if n < inner.text.length then n + 2 else n + 1)
  match entry.text with
  | '"' :: _ => quoted '"' (entry.drop 1)
  | '\'' :: _ => quoted '\'' (entry.drop 1)
  | t =>
    let n := (t.takeWhile isWordPart).length
    (entry.take n, n)

/-- The span of the longest expression at the start of a value: that of all of it, or of what lies
in front of the place where it goes wrong. -/
def expressionSpan? (parser : Script.Parser) (value : Text) : Option Span :=
  if value.isEmpty then none
  else
    match parser.read value with
    | .ok e => some e.span
    | .error diagnostics =>
      match diagnostics.head?.bind (·.offset?) with
      | some offset =>
        if 0 < offset && offset < value.size && value.isBoundary offset then
          let front := (value.takeBytes offset).trimEnd
          if front.isEmpty then none
          else (parser.read front).toOption.map Script.Outline.span
        else none
      | none => none

/-- What is left of an entry that is not in order. -/
def read (parser : Script.Parser) (source : Source) (owner : Nat) (entry : Excerpt) : Outcome :=
  if "...".toList.isPrefixOf entry.text then refuse source .spreadBinding entry.span
  else if entry.text.head? = some '[' then refuse source .computedBindingName entry.span
  else
    let (name, n) := name entry
    if n = 0 then refuse source .unsupportedBindingName entry.span
    else
      let behind := entry.drop n
      let rest := behind.trimStart
      if rest.text.head? = some ':' then
        let value := (rest.drop 1).trim
        match expressionSpan? parser value.text with
        | some span =>
          .ok (complete source owner name.span name.offset (span.shift value.offset))
        | none => .ok (lacking source owner name.span (rest.drop 1).offset)
      else .ok (lacking source owner name.span behind.offset)

end Salvage

end BoundTemplate.Binding
