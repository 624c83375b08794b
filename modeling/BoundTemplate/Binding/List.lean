import BoundTemplate.Binding.Entries
import BoundTemplate.Binding.Salvage

/-!
# Binding lists

A list that is in order gives what its entries give. Otherwise what is wrong with
it is recorded once, and every entry is read on its own, so an entry that is not
in order does not hide the others.
-/

namespace BoundTemplate.Binding

/-- What an entry gives that is read on its own. -/
def readEntry (parser : Script.Parser) (source : Source) (owner : Nat) (entry : Excerpt) :
    List Outcome :=
  match Object.read parser source owner entry with
  | .ok outcomes => outcomes
  | .error _ => [Salvage.read parser source owner entry]

/-- Where a list goes wrong: at its end at the latest, and there if nothing is told. -/
def Object.Failure.locate (source : Source) (body : Span) (list : Text)
    (failure : Object.Failure) : ParseError :=
  let place := (failure.offset?.map fun offset => body.start + min offset list.size).getD body.stop
  ⟨source.range (Span.empty place), failure.problem⟩

/-- What a binding list gives: its bindings and errors, in the order in which they are found. -/
def readList (parser : Script.Parser) (source : Source) (owner : Nat) (body : Span) :
    List Outcome :=
  let list := source.excerpt body
  if list.text.trim.isEmpty then []
  else
    match Object.read parser source owner list with
    | .ok outcomes => outcomes
    | .error failure =>
      .error (failure.locate source body list.text) ::
        (entries list).flatMap (readEntry parser source owner)

/-- The bindings among what is found. -/
def bindingsOf (outcomes : List Outcome) : List Binding := outcomes.filterMap Except.toOption

/-- The errors among what is found. -/
def errorsOf (outcomes : List Outcome) : List ParseError :=
  outcomes.filterMap fun
    | .error e => some e
    | .ok _ => none

end BoundTemplate.Binding
