import BoundTemplate.Text.Excerpt

/-!
# Comments that delimit virtual elements

A virtual element starts with a comment that says its namespace and, behind at
least one blank, an expression; it ends with one that says the namespace behind a
slash. Blanks around either do not count, and an end comment may say more behind a
blank.
-/

namespace BoundTemplate

/-- The namespaces of virtual elements. -/
inductive Namespace where
  /-- The expression is a binding list. -/
  | ko
  /-- The expression is a directive. -/
  | ok
  deriving DecidableEq, Repr

namespace Namespace

/-- How a namespace is written. -/
def text : Namespace → Text
  | ko => ['k', 'o']
  | ok => ['o', 'k']

/-- The namespace at the start of a text, and what follows it. -/
def read? : Text → Option (Namespace × Text)
  | 'k' :: 'o' :: t => some (ko, t)
  | 'o' :: 'k' :: t => some (ok, t)
  | _ => none

/-- A namespace is read exactly where it is written. -/
theorem read?_eq_some_iff {t rest : Text} {n : Namespace} :
    read? t = some (n, rest) ↔ t = n.text ++ rest := by
  constructor
  · intro h
    unfold read? at h
    split at h <;> cases h <;> rfl
  · rintro rfl
    cases n <;> rfl

end Namespace

namespace Delimiter

/-- What the comment at the start of a virtual element says. -/
structure Start where
  space : Namespace
  /-- The namespace, where it stands. -/
  spaceSpan : Span
  /-- The expression, where it stands. -/
  expression : Span
  deriving DecidableEq, Repr

/-- The start of a virtual element, if what a comment says is one. -/
def Start.ofContent? (content : Excerpt) : Option Start :=
  let word := content.trimStart
  match Namespace.read? word.text with
  | some (space, rest) =>
    if rest.head?.any isBlank then some ⟨space, (word.take 2).span, (word.drop 2).trim.span⟩
    else none
  | none => none

/-- The namespace of the virtual element that ends, if what a comment says ends one. -/
def endOf? (content : Text) : Option Namespace :=
  match content.trimStart with
  | '/' :: t =>
    match Namespace.read? t with
    | some (space, rest) => if rest.head?.all isBlank then some space else none
    | none => none
  | _ => none

/-- The part of a comment between its delimiters, given the span of all of it. -/
def contentSpan (comment : Span) : Span :=
  let start := min (comment.start + 4) comment.stop
  ⟨start, max (comment.stop - 3) start⟩

end Delimiter

end BoundTemplate
