import BoundTemplate.Text.Search

/-!
# Options of reading

The options say which attributes of an element are read as binding lists. They
decide about nothing else.
-/

namespace BoundTemplate

/-- What is read in which way. -/
structure ReadOptions where
  /-- The attributes whose values are binding lists. -/
  bindingAttributes : List Text := ["data-bind".toList]
  deriving DecidableEq, Repr, Inhabited

/-- Whether the value of an attribute is a binding list; the case of ASCII letters in its name does
not count. -/
def ReadOptions.isBindingAttribute (o : ReadOptions) (name : Text) : Bool :=
  o.bindingAttributes.any fun n => n.sameLetters name

end BoundTemplate
