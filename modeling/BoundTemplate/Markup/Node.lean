import BoundTemplate.Markup.Attribute

/-!
# Trees of markup

A node of markup is a piece of text, a comment or an element; it is known by its
span and, for an element, by the spans of its parts. Elements hold the nodes
between their tags.
-/

namespace BoundTemplate.Markup

/-- A node of markup. -/
inductive Node where
  | text (span : Span)
  /-- A comment with its delimiters. -/
  | comment (span : Span)
  /-- An element: from its start tag through its end tag, with what lies between both. -/
  | element (range name : Span) (attributes : List Attribute) (inner : Span) (children : List Node)

/-- The span of a node. -/
def Node.span : Node → Span
  | text s | comment s | element s _ _ _ _ => s

/-- Puts a node behind its elder siblings, which are given latest first; a text that touches the
one in front of it makes one text with it. -/
def Node.addTo (node : Node) (elders : List Node) : List Node :=
  match node, elders with
  | text s, text last :: others =>
    if last.stop = s.start then text ⟨last.start, s.stop⟩ :: others else node :: elders
  | _, _ => node :: elders

/-- A start tag, or the tag of an element without content. -/
structure StartTag where
  /-- From the `<` through the `>`. -/
  range : Span
  name : Span
  attributes : List Attribute
  deriving DecidableEq, Repr

/-- The element of a start tag whose content ends at one offset and which ends at another. -/
def StartTag.element (tag : StartTag) (children : List Node) (innerStop stop : Nat) : Node :=
  .element ⟨tag.range.start, stop⟩ tag.name tag.attributes ⟨tag.range.stop, innerStop⟩ children

/-- An element whose end has not been met. -/
structure OpenElement where
  tag : StartTag
  /-- The text of its name. -/
  name : Text
  /-- The nodes met in it, latest first. -/
  children : List Node

/-- The element that ends here. -/
def OpenElement.close (e : OpenElement) (innerStop stop : Nat) : Node :=
  e.tag.element e.children.reverse innerStop stop

end BoundTemplate.Markup
