import BoundTemplate.Binding.List
import BoundTemplate.Directive.Meaning
import BoundTemplate.Markup.Node
import BoundTemplate.Template.Delimiter
import BoundTemplate.Template.Options

/-!
# From markup to the syntax tree

The siblings of a list of markup nodes are read from the first to the last. A comment may
start a virtual element, which takes the siblings behind it, as they are read, up to the
comment that ends it; what is left of them is read on behind the virtual element. If no
comment ends it that ends reading; all other problems are recorded.

Elements and virtual elements are numbered as they begin, in the order of the text.
-/

namespace BoundTemplate

/-- What reading has found out so far. -/
structure Progress where
  /-- The number of the next element. -/
  nextId : Nat
  /-- The errors, latest first. -/
  errors : List ParseError

/-- A step of reading, which an error may end. -/
abbrev Reading := ExceptT ParseError (StateM Progress)

/-- What is read, and how. -/
structure Setting where
  source : Source
  options : ReadOptions
  /-- Reads the expressions of bindings. -/
  parser : Script.Parser

/-- What is made of some siblings, and those that are left behind it. -/
structure Left (siblings : List Markup.Node) (α : Type) where
  made : α
  rest : List Markup.Node
  suffix : rest <:+ siblings

namespace Reading

/-- The number of the next element. -/
def newId : Reading Nat := do
  let p ← get
  set { p with nextId := p.nextId + 1 }
  return p.nextId

/-- Records errors in their order. -/
def report (errors : List ParseError) : Reading Unit :=
  modify fun p => { p with errors := errors.reverse ++ p.errors }

end Reading

/-- What is left of some siblings is no larger than they are. -/
theorem sizeOf_le_of_suffix {rest siblings : List Markup.Node} (h : rest <:+ siblings) :
    sizeOf rest ≤ sizeOf siblings := by
  obtain ⟨front, rfl⟩ := h
  induction front with
  | nil => exact Nat.le_refl _
  | cons node front ih =>
    rw [List.cons_append, List.cons.sizeOf_spec]
    omega

namespace Setting

/-- The comment of a span as a node. -/
def comment (c : Setting) (span : Span) : Node :=
  .comment ⟨c.source.text.slice (Delimiter.contentSpan span), c.source.range span⟩

/-- Reads a binding list. -/
def readBindings (c : Setting) (owner : Nat) (body : Span) : Reading (List Binding) := do
  let outcomes := Binding.readList c.parser c.source owner body
  Reading.report (Binding.errorsOf outcomes)
  return Binding.bindingsOf outcomes

/-- Reads the expression of a virtual element. -/
def readMeaning (c : Setting) (owner : Nat) (start : Delimiter.Start) : Reading Meaning :=
  match start.space with
  | .ko => return .bindings (← c.readBindings owner start.expression)
  | .ok => do
    let (meaning, error?) := Directive.read c.source start.expression
    Reading.report error?.toList
    return meaning

/-- The start of a virtual element, if a comment says one. -/
def startOf? (c : Setting) (comment : Span) : Option Delimiter.Start :=
  Delimiter.Start.ofContent? (c.source.excerpt (Delimiter.contentSpan comment))

/-- The comment that a node is, if it ends a virtual element of a namespace. -/
def endComment? (c : Setting) (space : Namespace) : Markup.Node → Option Span
  | .comment span =>
    if Delimiter.endOf? (c.source.text.slice (Delimiter.contentSpan span)) = some space then
      some span
    else none
  | _ => none

/-- The virtual element between two comments. -/
def virtual (c : Setting) (id : Nat) (comment : Span) (start : Delimiter.Start)
    (meaning : Meaning) (children : List Node) (endComment : Span) : Node :=
  .virtual
    { id
      range := c.source.range ⟨comment.start, endComment.stop⟩
      startComment := c.source.range comment
      endComment := c.source.range endComment
      space := c.source.piece start.spaceSpan
      expression := c.source.piece start.expression
      inner := c.source.range ⟨comment.stop, endComment.start⟩
      meaning }
    children

/-- Reads an attribute, and its bindings if it has any. -/
def readAttribute (c : Setting) (owner : Nat) (a : Markup.Attribute) :
    Reading (Attribute × List Binding) := do
  let name := c.source.piece a.name
  let bindings ← match a.value with
    | some (value, _) =>
      if c.options.isBindingAttribute name.text then c.readBindings owner value else pure []
    | none => pure []
  let value := a.value.map fun (span, quote) =>
    ⟨c.source.text.slice span, c.source.range span, quote⟩
  return (⟨c.source.range a.range, name, value, owner⟩, bindings)

/-- Reads an element, its children apart. -/
def readElement (c : Setting) (range name : Span) (attributes : List Markup.Attribute)
    (inner : Span) : Reading Element := do
  let id ← Reading.newId
  let parts ← attributes.mapM (c.readAttribute id)
  return {
    id
    range := c.source.range range
    name := c.source.piece name
    attributes := parts.map (·.1)
    bindings := parts.flatMap (·.2)
    inner := c.source.range inner }

mutual

-- Where one of these hands all its siblings on to another, the number behind the size goes down.

/-- Reads some siblings. -/
def readAll (c : Setting) : List Markup.Node → Reading (List Node)
  | [] => return []
  | node :: siblings => do
    let ⟨first, rest, suffix⟩ ← c.readNode node siblings
    have := sizeOf_le_of_suffix suffix
    return first :: (← c.readAll rest)
termination_by nodes => 3 * sizeOf nodes + 1

/-- Reads a node and, if a virtual element starts there, those of its younger siblings that belong
to it. -/
def readNode (c : Setting) (node : Markup.Node) (siblings : List Markup.Node) :
    Reading (Left siblings Node) :=
  match node with
  | .text span => return ⟨.text (c.source.piece span), siblings, List.suffix_rfl⟩
  | .comment span =>
    match c.startOf? span with
    | some start => c.readVirtual span start siblings
    | none => return ⟨c.comment span, siblings, List.suffix_rfl⟩
  | .element range name attributes inner children => do
    let element ← c.readElement range name attributes inner
    let nodes ← c.readAll children
    return ⟨.element element nodes, siblings, List.suffix_rfl⟩
termination_by 3 * sizeOf (node :: siblings)

/-- Reads the virtual element that starts with a comment in front of some siblings. -/
def readVirtual (c : Setting) (comment : Span) (start : Delimiter.Start)
    (siblings : List Markup.Node) : Reading (Left siblings Node) := do
  let id ← Reading.newId
  let meaning ← c.readMeaning id start
  let ⟨(children, endComment), rest, suffix⟩ ← c.readChildren comment start.space siblings
  return ⟨c.virtual id comment start meaning children endComment, rest, suffix⟩
termination_by 3 * sizeOf siblings + 2

/-- Reads the children of the virtual element of a namespace that starts with a comment, up to the
comment that ends it. -/
def readChildren (c : Setting) (comment : Span) (space : Namespace) :
    (siblings : List Markup.Node) → Reading (Left siblings (List Node × Span))
  | [] => throw ⟨c.source.range comment, .endCommentExpected⟩
  | node :: siblings =>
    match c.endComment? space node with
    | some endComment => return ⟨([], endComment), siblings, List.suffix_cons node siblings⟩
    | none => do
      let ⟨first, rest, suffix⟩ ← c.readNode node siblings
      have := sizeOf_le_of_suffix suffix
      let ⟨(children, endComment), rest', suffix'⟩ ← c.readChildren comment space rest
      return ⟨(first :: children, endComment), rest',
        (suffix'.trans suffix).trans (List.suffix_cons node siblings)⟩
termination_by siblings => 3 * sizeOf siblings + 1

end

end Setting

end BoundTemplate
