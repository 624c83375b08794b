import BoundTemplate.Output.Compose

/-!
# Passages

A passage is a sequence of operations as data, so the same one can be performed on more
than one chunk. It refers to the mappings that it begins by their order, whatever the
indices are that these have in a chunk.
-/

namespace BoundTemplate.Output

/-- A mapping that a passage ends. -/
inductive Handle where
  /-- One of the chunk, by its index. -/
  | earlier (index : Nat)
  /-- One that the passage begins, by its order among these. -/
  | own (order : Nat)
  deriving DecidableEq, Repr

/-- The index of a mapping, if those of the passage start at an index. -/
def Handle.index (first : Nat) : Handle → Nat
  | earlier index => index
  | own order => first + order

/-- An operation in a passage that contains no other operations. -/
inductive Step where
  | append (t : Text)
  | appendMapped (t : Text) (origin : Origin)
  | openMapping (origin : Origin)
  | closeMapping (handle : Handle)
  | indent (levels : Nat)
  | dedent (levels : Nat)
  | mark (name : Text)
  | markTemplate (name : Text) (offset : Nat)
  | insert (offset : Nat) (t : Text)
  | update (a b : Nat) (t : Text)
  | add (other : Chunk)
  deriving DecidableEq, Repr

/-- Performs an operation of a passage whose mappings start at an index. -/
def Step.run (first : Nat) : Step → Chunk → Chunk
  | append t, c => c.append t
  | appendMapped t origin, c => c.appendMapped t origin
  | openMapping origin, c => c.openMapping origin
  | closeMapping handle, c => c.closeMapping (handle.index first)
  | indent levels, c => c.indent levels
  | dedent levels, c => c.dedent levels
  | mark name, c => c.mark name
  | markTemplate name offset, c => c.markTemplate name offset
  | insert offset t, c => c.insert offset t
  | update a b t, c => c.update a b t
  | add other, c => c.add other

/-- Operations one after the other. -/
inductive Passage where
  | done
  | step (s : Step) (rest : Passage)
  /-- Maps what a passage writes, and goes on. -/
  | mapped (origin : Origin) (body rest : Passage)
  /-- Names what a passage writes, and goes on. -/
  | locating (name : Text) (body rest : Passage)
  deriving DecidableEq, Repr

/-- Performs a passage whose mappings start at an index. -/
def Passage.run (first : Nat) : Passage → Chunk → Chunk
  | done, c => c
  | step s rest, c => rest.run first (s.run first c)
  | mapped origin body rest, c => rest.run first (Id.run (c.mapped origin (body.run first)))
  | locating name body rest, c => rest.run first (Id.run (c.locating name (body.run first)))

/-! ### Passages that only write -/

/-- An operation writes text without carriage returns, and ends only mappings of its own passage. -/
def Step.Writes : Step → Prop
  | append t | appendMapped t _ => '\r' ∉ t
  | closeMapping (.earlier _) => False
  | closeMapping (.own _) | openMapping _ | indent _ | dedent _ | mark _ | markTemplate _ _ => True
  | insert _ _ | update _ _ _ | add _ => False

instance : DecidablePred Step.Writes
  | .append t | .appendMapped t _ => inferInstanceAs (Decidable ('\r' ∉ t))
  | .closeMapping (.earlier _) => .isFalse id
  | .closeMapping (.own _) | .openMapping _ | .indent _ | .dedent _ | .mark _
  | .markTemplate _ _ => .isTrue trivial
  | .insert _ _ | .update _ _ _ | .add _ => .isFalse id

/-- The level behind an operation, unless it goes below zero. -/
def Step.levelAfter? (level : Nat) : Step → Option Nat
  | indent levels => some (level + levels)
  | dedent levels => if levels ≤ level then some (level - levels) else none
  | _ => some level

namespace Passage

/-- A passage only writes, and refers only to its own mappings. -/
def Writes : Passage → Prop
  | done => True
  | step s rest => s.Writes ∧ rest.Writes
  | mapped _ body rest => body.Writes ∧ rest.Writes
  | locating _ _ _ => False

instance decidableWrites : DecidablePred Writes
  | done => .isTrue trivial
  | step s rest =>
    have := decidableWrites rest
    inferInstanceAs (Decidable (s.Writes ∧ rest.Writes))
  | mapped _ body rest =>
    have := decidableWrites body
    have := decidableWrites rest
    inferInstanceAs (Decidable (body.Writes ∧ rest.Writes))
  | locating _ _ _ => .isFalse id

/-- The level behind a passage, unless it goes below zero. -/
def levelAfter? : Passage → Nat → Option Nat
  | done, level => some level
  | step s rest, level => (s.levelAfter? level).bind rest.levelAfter?
  | mapped _ body rest, level | locating _ body rest, level =>
    (body.levelAfter? level).bind rest.levelAfter?

end Passage

/-- Ends all mappings from an index on. -/
def Chunk.closeFrom (first : Nat) (c : Chunk) : Chunk :=
  (List.range' first (c.mappings.length - first)).foldl (fun d index => d.closeMapping index) c

end BoundTemplate.Output
