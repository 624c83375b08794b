import Mathlib.Data.List.Induction

/-!
# Choosing from a list

A list is gone through in its order, and of the entries with a property one is kept, which a
later one displaces unless the kept one holds against it. Where an entry holds against those
that are not smaller, the first of the smallest is left at the end; where it holds against
larger ones only, the last of them is.
-/

namespace BoundTemplate

variable {α : Type} {r : α → α → Prop} {p : α → Bool} {entries : List α} {i j : Nat} {a b : α}

/-- An entry is chosen at its index: it has a property, and of all entries with that property, those
in front do not hold against it, and it holds against those behind. -/
structure Chosen (r : α → α → Prop) (p : α → Bool) (entries : List α) (index : Nat) (a : α) :
    Prop where
  found : entries[index]? = some a
  wanted : p a = true
  front : ∀ (j : Nat) (b : α), j < index → entries[j]? = some b → p b = true → ¬r b a
  behind : ∀ (j : Nat) (b : α), index < j → entries[j]? = some b → p b = true → r a b

/-- A step keeps the entry that holds against the next one. To hold against others is to come first
in an order, strictly or not. -/
structure Picks (r : α → α → Prop) [DecidableRel r] (step : Option α → α → Option α) : Prop where
  trans : ∀ a b c, r a b → r b c → r a c
  trans_not : ∀ a b c, ¬r a b → ¬r b c → ¬r a c
  first : ∀ a, step none a = some a
  next : ∀ a b, step (some a) b = if r a b then some a else some b

namespace Chosen

/-- One entry is chosen at most. -/
theorem unique (h : Chosen r p entries i a) (h' : Chosen r p entries j b) : a = b := by
  rcases Nat.lt_trichotomy i j with hlt | rfl | hgt
  · exact absurd (h.behind j b hlt h'.found h'.wanted) (h'.front i a hlt h.found h.wanted)
  · exact Option.some.inj (h.found.symm.trans h'.found)
  · exact absurd (h'.behind i a hgt h.found h.wanted) (h.front j b hgt h'.found h'.wanted)

/-- The chosen entry stays so in front of one without the property or one that it holds against. -/
theorem concat_of_holds (h : Chosen r p entries i a) (hb : p b = true → r a b) :
    Chosen r p (entries ++ [b]) i a := by
  have hi : i < entries.length := (List.getElem?_eq_some_iff.1 h.found).1
  refine ⟨(List.getElem?_append_left hi).trans h.found, h.wanted, fun j c hlt hj hc => ?_,
    fun j c hgt hj hc => ?_⟩
  · exact h.front j c hlt ((List.getElem?_append_left (Nat.lt_trans hlt hi)).symm.trans hj) hc
  · rcases Nat.lt_or_ge j entries.length with hin | hge
    · exact h.behind j c hgt ((List.getElem?_append_left hin).symm.trans hj) hc
    · rw [List.getElem?_append_right hge] at hj
      obtain rfl := List.mem_singleton.1 (List.mem_of_getElem? hj)
      exact hb hc

/-- An entry with the property is chosen behind others if none that has it holds against it. -/
theorem concat_of_not_holds (hb : p b = true) (hfront : ∀ a ∈ entries, p a = true → ¬r a b) :
    Chosen r p (entries ++ [b]) entries.length b := by
  refine ⟨List.getElem?_concat_length, hb, fun j c hlt hj hc => ?_, fun j c hgt hj _ => ?_⟩
  · exact hfront c (List.mem_of_getElem? ((List.getElem?_append_left hlt).symm.trans hj)) hc
  · have hlt := (List.getElem?_eq_some_iff.1 hj).1
    rw [List.length_append, List.length_singleton] at hlt
    omega

variable [DecidableRel r] {step : Option α → α → Option α}

/-- Against an entry that displaces the chosen one, no other holds. -/
theorem not_holds (h : Chosen r p entries i a) (hstep : Picks r step) (hab : ¬r a b) {c : α}
    (hmem : c ∈ entries) (hc : p c = true) : ¬r c b := by
  obtain ⟨j, hj⟩ := List.mem_iff_getElem?.1 hmem
  rcases Nat.lt_trichotomy j i with hlt | rfl | hgt
  · exact hstep.trans_not c a b (h.front j c hlt hj hc) hab
  · obtain rfl := Option.some.inj (h.found.symm.trans hj)
    exact hab
  · exact fun hcb => hab (hstep.trans a c b (h.behind j c hgt hj hc) hcb)

end Chosen

namespace Picks

variable [DecidableRel r] {step : Option α → α → Option α}

/-- Going through a list chooses an entry, or none has the property. The induction goes from the
first entries to all of them, as the steps do. -/
theorem foldl_cases (hstep : Picks r step) (p : α → Bool) (entries : List α) :
    let result := (entries.filter p).foldl step none
    (result = none ∧ ∀ a ∈ entries, p a = false) ∨
      ∃ index a, result = some a ∧ Chosen r p entries index a := by
  induction entries using List.reverseRecOn with
  | nil => exact .inl ⟨rfl, fun a ha => nomatch ha⟩
  | append_singleton entries b ih =>
    dsimp only at ih ⊢
    rw [List.filter_append, List.foldl_append]
    cases hb : p b with
    | false =>
      rw [List.filter_cons_of_neg (Bool.eq_false_iff.1 hb), List.filter_nil, List.foldl_nil]
      rcases ih with ⟨hresult, hall⟩ | ⟨index, a, hresult, hchosen⟩
      · refine .inl ⟨hresult, List.forall_mem_append.2 ⟨hall, fun c hc => ?_⟩⟩
        rwa [List.mem_singleton.1 hc]
      · refine .inr ⟨index, a, hresult, hchosen.concat_of_holds fun htrue => ?_⟩
        exact absurd htrue (Bool.eq_false_iff.1 hb)
    | true =>
      rw [List.filter_cons_of_pos hb, List.filter_nil, List.foldl_cons, List.foldl_nil]
      refine .inr ?_
      rcases ih with ⟨hresult, hall⟩ | ⟨index, a, hresult, hchosen⟩
      · rw [hresult, hstep.first]
        exact ⟨_, b, rfl, .concat_of_not_holds hb fun c hc hwanted =>
          absurd hwanted (Bool.eq_false_iff.1 (hall c hc))⟩
      · rw [hresult, hstep.next]
        by_cases hab : r a b
        · exact ⟨index, a, if_pos hab, hchosen.concat_of_holds fun _ => hab⟩
        · exact ⟨_, b, if_neg hab, .concat_of_not_holds hb fun c hc hwanted =>
            hchosen.not_holds hstep hab hc hwanted⟩

theorem foldl_eq_none_iff (hstep : Picks r step) :
    (entries.filter p).foldl step none = none ↔ ∀ a ∈ entries, p a = false := by
  rcases hstep.foldl_cases p entries with ⟨hnone, hall⟩ | ⟨index, a, hsome, hchosen⟩
  · exact iff_of_true hnone hall
  · refine iff_of_false (fun hnone => ?_) fun hall => ?_
    · cases hsome.symm.trans hnone
    · have hmem := List.mem_of_getElem? hchosen.found
      exact absurd hchosen.wanted (Bool.eq_false_iff.1 (hall a hmem))

/-- What is left at the end is the chosen entry. -/
theorem foldl_eq_some_iff (hstep : Picks r step) :
    (entries.filter p).foldl step none = some a ↔ ∃ index, Chosen r p entries index a := by
  rcases hstep.foldl_cases p entries with ⟨hnone, hall⟩ | ⟨index, b, hsome, hchosen⟩
  · refine iff_of_false (fun hsome => ?_) fun ⟨index, h⟩ => ?_
    · cases hnone.symm.trans hsome
    · exact absurd h.wanted (Bool.eq_false_iff.1 (hall a (List.mem_of_getElem? h.found)))
  · constructor
    · intro h
      cases hsome.symm.trans h
      exact ⟨index, hchosen⟩
    · rintro ⟨index', h⟩
      rw [h.unique hchosen]
      exact hsome

end Picks

end BoundTemplate
