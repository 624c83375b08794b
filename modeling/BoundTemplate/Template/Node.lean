import BoundTemplate.Text.Quote
import BoundTemplate.Text.Search
import BoundTemplate.Template.Source

/-!
# Syntax trees

The tree of a template is made of texts, comments, elements and virtual
elements, which are delimited by comments. Elements carry attributes and
bindings, a virtual element carries bindings or a directive. Parents hold their
children; attributes and bindings name their owner by its number.
-/

namespace BoundTemplate

/-- What stands between two quotes, or the unquoted value of an attribute. -/
structure Literal where
  text : Text
  range : Range
  quote : Quote
  deriving DecidableEq, Repr

/-- An attribute of an element. -/
structure Attribute where
  range : Range
  name : Piece
  value : Option Literal
  /-- The number of its element. -/
  owner : Nat
  deriving DecidableEq, Repr

/-- An entry of a binding list. -/
structure Binding where
  /-- From the start of the name to the end of the parameter. -/
  range : Range
  name : Piece
  param : Piece
  /-- The parameter is missing, and `param` is empty. -/
  incomplete : Bool
  /-- The number of its element or virtual element. -/
  owner : Nat
  deriving DecidableEq, Repr

/-- The import clause of a directive. -/
structure Import where
  range : Range
  /-- The imported name, or an asterisk. -/
  identifier : Piece
  /-- Only types are imported. -/
  typeOnly : Bool
  module : Literal
  deriving DecidableEq, Repr

/-- What a virtual element of the namespace `ok` says. -/
structure Directive where
  name : Piece
  param : Piece
  clause : Option Import
  deriving DecidableEq, Repr

/-- An element, its children apart. -/
structure Element where
  id : Nat
  range : Range
  name : Piece
  attributes : List Attribute
  bindings : List Binding
  /-- What lies between its tags. -/
  inner : Range
  deriving DecidableEq, Repr

/-- What the expression of a virtual element means. -/
inductive Meaning where
  /-- A binding list, in the namespace `ko`. -/
  | bindings (list : List Binding)
  /-- A directive, in the namespace `ok`. -/
  | directive (directive : Directive)
  /-- Nothing, in the namespace `ok`. -/
  | unknown
  deriving DecidableEq, Repr

/-- A virtual element, its children apart. -/
structure VirtualElement where
  id : Nat
  /-- From the start comment through the end comment. -/
  range : Range
  startComment : Range
  endComment : Range
  space : Piece
  expression : Piece
  /-- What lies between its comments. -/
  inner : Range
  meaning : Meaning
  deriving DecidableEq, Repr

/-- A node of a tree. -/
inductive Node where
  | text (piece : Piece)
  /-- A comment: what it says, and the range of all of it. -/
  | comment (piece : Piece)
  | element (element : Element) (children : List Node)
  | virtual (element : VirtualElement) (children : List Node)

/-- The tree of a template. -/
structure SyntaxTree where
  nodes : List Node
  /-- All of the text. -/
  range : Range
  /-- The way in which the first line of the text ends. -/
  style : Option LineBreak

namespace Element

/-- The first attribute of a name, the case of ASCII letters apart. -/
def attribute? (e : Element) (name : Text) : Option Attribute :=
  e.attributes.find? fun a => a.name.text.sameLetters name

/-- The first binding of a name. -/
def binding? (e : Element) (name : Text) : Option Binding :=
  e.bindings.find? fun b => b.name.text == name

end Element

namespace VirtualElement

/-- The bindings of a virtual element; one that is no binding list has none. -/
def bindings (e : VirtualElement) : List Binding :=
  match e.meaning with
  | .bindings list => list
  | _ => []

/-- The directive of a virtual element, if it is one. -/
def directive? (e : VirtualElement) : Option Directive :=
  match e.meaning with
  | .directive d => some d
  | _ => none

end VirtualElement

/-- The range of a node. -/
def Node.range : Node → Range
  | text p | comment p => p.range
  | element e _ => e.range
  | virtual e _ => e.range

end BoundTemplate
