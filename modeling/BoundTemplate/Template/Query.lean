import BoundTemplate.Template.Node

/-!
# Questions to a syntax tree

The items of a tree are its nodes and what they carry, in the order of the text:
a node comes before its attributes, these before its bindings or its import
clause, and these before its children. The item at an offset is the smallest that
contains it, and of items of one size the last.
-/

namespace BoundTemplate

/-- The kinds of items. -/
inductive Item.Kind where
  | text
  | comment
  | element
  | attribute
  | binding
  | virtual
  | clause
  deriving DecidableEq, Repr

/-- Something in a tree that has a range of its own. -/
inductive Item where
  | text (piece : Piece)
  | comment (piece : Piece)
  | element (element : Element)
  | attribute (a : Attribute)
  | binding (binding : Binding)
  | virtual (element : VirtualElement)
  | clause (clause : Import)
  deriving DecidableEq, Repr

namespace Item

/-- The kind of an item. -/
def kind : Item → Kind
  | text _ => .text
  | comment _ => .comment
  | element _ => .element
  | .attribute _ => .attribute
  | binding _ => .binding
  | virtual _ => .virtual
  | clause _ => .clause

/-- The range of an item. -/
def range : Item → Range
  | text p | comment p => p.range
  | element e => e.range
  | .attribute a => a.range
  | binding b => b.range
  | virtual e => e.range
  | clause i => i.range

/-- What an item is called: its content, its name, its expression or what it imports. -/
def label : Item → Text
  | text p | comment p => p.text
  | element e => e.name.text
  | .attribute a => a.name.text
  | binding b => b.name.text
  | virtual e => e.expression.text
  | clause i => i.identifier.text

/-- The number of an item that is an element or a virtual element. -/
def id? : Item → Option Nat
  | element e => some e.id
  | virtual e => some e.id
  | _ => none

/-- The smaller of two items; of two of one size, the later. -/
def smaller (current? : Option Item) (item : Item) : Option Item :=
  match current? with
  | some current => if current.range.size < item.range.size then some current else some item
  | none => some item

end Item

/-- The items that an element carries. -/
def Element.items (e : Element) : List Item :=
  e.attributes.map Item.attribute ++ e.bindings.map Item.binding

/-- The items that a virtual element carries. -/
def VirtualElement.items (e : VirtualElement) : List Item :=
  match e.meaning with
  | .bindings list => list.map Item.binding
  | .directive d => d.clause.toList.map Item.clause
  | .unknown => []

mutual

/-- The items of a node. -/
def Node.items : Node → List Item
  | .text p => [.text p]
  | .comment p => [.comment p]
  | .element e children => .element e :: (e.items ++ itemsOf children)
  | .virtual e children => .virtual e :: (e.items ++ itemsOf children)

/-- The items of some nodes. -/
def itemsOf : List Node → List Item
  | [] => []
  | node :: nodes => node.items ++ itemsOf nodes

end

namespace SyntaxTree

/-- The items of a tree. -/
def items (tree : SyntaxTree) : List Item := itemsOf tree.nodes

/-- The items of one kind, or all. -/
def itemsOfKind (tree : SyntaxTree) (kind? : Option Item.Kind) : List Item :=
  tree.items.filter fun item => kind?.all (· == item.kind)

/-- The innermost item at an offset. -/
def itemAt? (tree : SyntaxTree) (offset : Nat) : Option Item :=
  (tree.items.filter fun item => item.range.contains offset).foldl Item.smaller none

/-- The element or the virtual element of a number. -/
def owner? (tree : SyntaxTree) (id : Nat) : Option Item :=
  (tree.items.filter fun item => item.id? == some id).getLast?

/-- The element of a number. -/
def element? (tree : SyntaxTree) (id : Nat) : Option Element :=
  match tree.owner? id with
  | some (.element e) => some e
  | _ => none

/-- The virtual element of a number. -/
def virtual? (tree : SyntaxTree) (id : Nat) : Option VirtualElement :=
  match tree.owner? id with
  | some (.virtual e) => some e
  | _ => none

/-- The bindings of a tree, in the order of the text. -/
def bindings (tree : SyntaxTree) : List Binding :=
  tree.items.filterMap fun
    | .binding b => some b
    | _ => none

end SyntaxTree

end BoundTemplate
