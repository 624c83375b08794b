import BoundTemplate.Proofs.Text.LineTable

/-!
# Moves

A move adds a signed word to an offset, and their sum wraps around where it is no signed
word. A sum that wraps is negative, so it leads to no place, as the sum that it stands for
lies past the end of every text. So a move goes to the offset that arithmetic gives, or
nowhere; whether bounds or characters are checked first only decides which error is given.
-/

namespace BoundTemplate

/-- The least number that is too large for a signed word. Offsets and sizes lie below it. -/
def wordLimit : Nat := 0x8000000000000000

/-- A number that a signed word can hold. -/
def IsSignedWord (n : Int) : Prop := -(wordLimit : Int) ≤ n ∧ n < wordLimit

/-- The value of a signed word is the number that it holds. -/
theorem signedWord_of_isSignedWord {n : Int} (h : IsSignedWord n) : signedWord n = n := by
  obtain ⟨hlow, hhigh⟩ := h
  simp only [wordLimit] at hlow hhigh
  refine Int.bmod_eq_of_le_mul_two ?_ ?_ <;> omega

/-- A sum that is too large for a signed word wraps around to a negative one. -/
theorem signedWord_neg {n : Int} (hlow : (wordLimit : Int) ≤ n) (hhigh : n < 2 * wordLimit) :
    signedWord n < 0 := by
  simp only [wordLimit] at hlow hhigh
  have hwrapped : signedWord n = n - 0x10000000000000000 := by
    refine (Int.bmod_eq_iff (by decide)).2 ⟨?_, ?_, ?_⟩
    · omega
    · omega
    · exact ⟨-1, by omega⟩
  omega

namespace LineTable

variable {table : LineTable} {offset target size : Nat} {delta : Int} {p : Position}

/-- An offset is moved to the sum, if that is an offset again. -/
theorem moveOffset_eq_ok_iff (ho : offset < wordLimit) (hd : IsSignedWord delta) :
    moveOffset size offset delta = .ok target ↔
      (target : Int) = offset + delta ∧ target < wordLimit := by
  obtain ⟨hlow, hhigh⟩ := hd
  unfold moveOffset
  dsimp only
  by_cases hfits : (offset : Int) + delta < wordLimit
  · have hword : signedWord (offset + delta) = offset + delta :=
      signedWord_of_isSignedWord ⟨by omega, hfits⟩
    rw [hword]
    split
    · refine iff_of_false (by simp) ?_
      omega
    · rw [Except.ok.injEq]
      omega
  · have hneg : signedWord (offset + delta) < 0 := signedWord_neg (by omega) (by omega)
    rw [if_pos hneg]
    refine iff_of_false (by simp) ?_
    omega

/-- Moving in front of a lookup that only knows offsets of texts is looking up the sum. -/
theorem moveOffset_bind_eq_ok_iff {α : Type} {find : Nat → Except LocationError α} {a : α}
    (ho : offset < wordLimit) (hd : IsSignedWord delta)
    (hfind : ∀ target, find target = .ok a → target < wordLimit) :
    (moveOffset size offset delta >>= find) = .ok a ↔
      ∃ target : Nat, (target : Int) = offset + delta ∧ find target = .ok a := by
  constructor
  · intro h
    obtain ⟨target, htarget, ha⟩ := exists_of_bind_eq_ok h
    exact ⟨target, ((moveOffset_eq_ok_iff ho hd).1 htarget).1, ha⟩
  · rintro ⟨target, hsum, ha⟩
    rw [(moveOffset_eq_ok_iff ho hd).2 ⟨hsum, hfind target ha⟩]
    exact ha

/-- Only offsets of the text have a position. -/
theorem le_size_of_positionAt (h : table.positionAt offset = .ok p) : offset ≤ table.size := by
  unfold positionAt at h
  split at h
  · cases h
  · next hle => exact Nat.le_of_not_lt hle

theorem move_eq_ok_iff (hsize : table.size < wordLimit) (ho : offset < wordLimit)
    (hd : IsSignedWord delta) :
    table.move offset delta = .ok p ↔
      ∃ target : Nat, (target : Int) = offset + delta ∧ table.positionAt target = .ok p :=
  moveOffset_bind_eq_ok_iff ho hd fun _ h => Nat.lt_of_le_of_lt (le_size_of_positionAt h) hsize

/-- A moved offset is looked up where the sum lies. -/
theorem offset_of_move (hsize : table.size < wordLimit) (horder : table.InOrder)
    (ho : offset < wordLimit) (hd : IsSignedWord delta) (h : table.move offset delta = .ok p) :
    (p.offset : Int) = offset + delta ∧ p.offset < wordLimit := by
  obtain ⟨target, hsum, hp⟩ := (move_eq_ok_iff hsize ho hd).1 h
  have hle := le_size_of_positionAt hp
  rw [((positionAt_eq_ok_iff horder).1 hp).1]
  exact ⟨hsum, Nat.lt_of_le_of_lt hle hsize⟩

/-- Two moves one behind the other are one by the sum of both. -/
theorem move_move {delta' : Int} {q : Position} (hsize : table.size < wordLimit)
    (horder : table.InOrder) (ho : offset < wordLimit) (hd : IsSignedWord delta)
    (hd' : IsSignedWord delta') (h : table.move offset delta = .ok p)
    (h' : table.move p.offset delta' = .ok q) :
    IsSignedWord (delta + delta') ∧ table.move offset (delta + delta') = .ok q := by
  obtain ⟨hp, hlt⟩ := offset_of_move hsize horder ho hd h
  obtain ⟨hq, hlt'⟩ := offset_of_move hsize horder hlt hd' h'
  have hsum : IsSignedWord (delta + delta') := by
    constructor <;> omega
  obtain ⟨target, htarget, hplace⟩ := (move_eq_ok_iff hsize hlt hd').1 h'
  exact ⟨hsum, (move_eq_ok_iff hsize ho hsum).2 ⟨target, by omega, hplace⟩⟩

end LineTable

/-- Positions of a text are ordered as their offsets. -/
theorem Position.compare_eq {t : Text} {p q : Position} {a b : Nat}
    (hp : (LineTable.ofText t).positionAt a = .ok p)
    (hq : (LineTable.ofText t).positionAt b = .ok q) : p.compare q = Ord.compare a b := by
  have horder := LineTable.inOrder_ofText t
  obtain ⟨rfl, hs⟩ := (LineTable.positionAt_eq_ok_iff horder).1 hp
  obtain ⟨rfl, hs'⟩ := (LineTable.positionAt_eq_ok_iff horder).1 hq
  rcases Nat.lt_trichotomy p.offset q.offset with hlt | heq | hgt
  · rw [hs.compare_eq_lt horder hs' hlt, Nat.compare_eq_lt.2 hlt]
  · rw [heq, hq] at hp
    cases hp
    simp only [compare, Nat.compare_eq_eq.2 rfl, Ordering.then]
  · have hswap : q.compare p = .lt := hs'.compare_eq_lt horder hs hgt
    rw [Nat.compare_eq_gt.2 hgt, ← Ordering.swap_lt, ← hswap]
    simp only [compare, Ordering.swap_then, Nat.compare_swap]

namespace Text

variable {t : Text} {p q s : Position} {r moved again : Range} {delta delta' : Int}

/-- A checked move is a move to a place between two characters. -/
theorem movePosition_eq_ok_iff :
    t.movePosition p delta = .ok q ↔
      (LineTable.ofText t).move p.offset delta = .ok q ∧ t.isBoundary q.offset = true := by
  have hplace (target : Nat) (h : (LineTable.ofText t).positionAt target = .ok q) :
      q.offset = target :=
    ((LineTable.positionAt_eq_ok_iff (LineTable.inOrder_ofText t)).1 h).1
  constructor
  · intro h
    obtain ⟨target, htarget, h⟩ := exists_of_bind_eq_ok h
    obtain ⟨hq, hboundary⟩ := positionFromOffset_eq_ok_iff.1 h
    rw [hplace target hq]
    refine ⟨?_, hboundary⟩
    rw [LineTable.move]
    exact (congrArg (· >>= _) htarget).trans hq
  · rintro ⟨h, hboundary⟩
    obtain ⟨target, htarget, hq⟩ := exists_of_bind_eq_ok h
    rw [hplace target hq] at hboundary
    rw [movePosition]
    exact (congrArg (· >>= _) htarget).trans (positionFromOffset_eq_ok_iff.2 ⟨hq, hboundary⟩)

/-- A range is moved by moving both of its ends. -/
theorem moveRange_eq_ok_iff :
    t.moveRange r delta = .ok moved ↔
      t.movePosition r.start delta = .ok moved.start ∧
        t.movePosition r.stop delta = .ok moved.stop := by
  rw [movePosition_eq_ok_iff, movePosition_eq_ok_iff]
  constructor
  · intro h
    obtain ⟨start, hstart, h⟩ := exists_of_bind_eq_ok h
    obtain ⟨stop, hstop, h⟩ := exists_of_bind_eq_ok h
    obtain ⟨h, hstartBoundary⟩ := checkBoundary_bind_eq_ok_iff.1 h
    obtain ⟨h, hstopBoundary⟩ := checkBoundary_bind_eq_ok_iff.1 h
    cases h
    exact ⟨⟨hstart, hstartBoundary⟩, hstop, hstopBoundary⟩
  · rintro ⟨⟨hstart, hstartBoundary⟩, hstop, hstopBoundary⟩
    unfold moveRange
    dsimp only
    rw [hstart, hstop]
    exact checkBoundary_bind_eq_ok_iff.2
      ⟨checkBoundary_bind_eq_ok_iff.2 ⟨rfl, hstopBoundary⟩, hstartBoundary⟩

/-- Where a move of a position leads. -/
structure MovesPosition (t : Text) (p : Position) (delta : Int) : Prop where
  /-- It leads somewhere if the sum lies between two characters of the text. -/
  exists_iff : (∃ q, t.movePosition p delta = .ok q) ↔
    ∃ target : Nat, (target : Int) = p.offset + delta ∧ target ≤ t.size ∧
      t.isBoundary target = true
  /-- It leads to the place of the sum. -/
  eq_ok_iff : ∀ target : Nat, (target : Int) = p.offset + delta → ∀ q,
    t.movePosition p delta = .ok q ↔ t.positionFromOffset target = .ok q
  /-- In a line table it leads somewhere if the sum is an offset of the text. -/
  unchecked_exists_iff : (∃ q, (LineTable.ofText t).move p.offset delta = .ok q) ↔
    ∃ target : Nat, (target : Int) = p.offset + delta ∧ target ≤ t.size
  /-- In a line table it leads to the same place. -/
  unchecked_iff : ∀ q, t.movePosition p delta = .ok q ↔
    (LineTable.ofText t).move p.offset delta = .ok q ∧ t.isBoundary q.offset = true

/-- Where a move of a range leads. -/
structure MovesRange (t : Text) (r : Range) (delta : Int) : Prop where
  /-- It leads somewhere if the moves of both ends do. -/
  exists_iff : (∃ moved, t.moveRange r delta = .ok moved) ↔
    (∃ p, t.movePosition r.start delta = .ok p) ∧ ∃ q, t.movePosition r.stop delta = .ok q
  /-- It leads to where these lead. -/
  ends : ∀ moved, t.moveRange r delta = .ok moved →
    t.movePosition r.start delta = .ok moved.start ∧ t.movePosition r.stop delta = .ok moved.stop
  /-- It keeps the size. -/
  size_eq : ∀ moved, t.moveRange r delta = .ok moved → moved.size = r.size
  /-- It keeps the order of the ends. -/
  compare_eq : ∀ moved, t.moveRange r delta = .ok moved →
    moved.start.compare moved.stop = Ord.compare r.start.offset r.stop.offset

theorem movesPosition (hsize : t.size < wordLimit) (hp : p.offset < wordLimit)
    (hd : IsSignedWord delta) : t.MovesPosition p delta := by
  have hmove (q : Position) : (LineTable.ofText t).move p.offset delta = .ok q ↔
      ∃ target : Nat, (target : Int) = p.offset + delta ∧
        (LineTable.ofText t).positionAt target = .ok q := LineTable.move_eq_ok_iff hsize hp hd
  have hplace {target : Nat} (hle : target ≤ t.size) :
      ∃ q, (LineTable.ofText t).positionAt target = .ok q := ⟨_, if_neg (Nat.not_lt_of_le hle)⟩
  -- The sum is one number, so a move is the lookup of any number that is the sum.
  have hlookup (target : Nat) (hsum : (target : Int) = p.offset + delta) (q : Position) :
      (LineTable.ofText t).move p.offset delta = .ok q ↔
        (LineTable.ofText t).positionAt target = .ok q := by
    rw [hmove]
    constructor
    · rintro ⟨target', hsum', hq⟩
      obtain rfl : target' = target := by omega
      exact hq
    · exact fun hq => ⟨target, hsum, hq⟩
  have horder := LineTable.inOrder_ofText t
  have hchecked (target : Nat) (hsum : (target : Int) = p.offset + delta) (q : Position) :
      t.movePosition p delta = .ok q ↔ t.positionFromOffset target = .ok q := by
    rw [movePosition_eq_ok_iff, positionFromOffset_eq_ok_iff, hlookup target hsum]
    refine and_congr_right fun hq => ?_
    rw [((LineTable.positionAt_eq_ok_iff horder).1 hq).1]
  refine ⟨⟨?_, ?_⟩, hchecked, ⟨?_, ?_⟩, fun q => movePosition_eq_ok_iff⟩
  · rintro ⟨q, hq⟩
    obtain ⟨target, hsum, -⟩ := (hmove q).1 (movePosition_eq_ok_iff.1 hq).1
    obtain ⟨hat, hboundary⟩ := positionFromOffset_eq_ok_iff.1 ((hchecked target hsum q).1 hq)
    exact ⟨target, hsum, LineTable.le_size_of_positionAt hat, hboundary⟩
  · rintro ⟨target, hsum, hle, hboundary⟩
    obtain ⟨q, hq⟩ := hplace hle
    exact ⟨q, (hchecked target hsum q).2 (positionFromOffset_eq_ok_iff.2 ⟨hq, hboundary⟩)⟩
  · rintro ⟨q, hq⟩
    obtain ⟨target, hsum, hat⟩ := (hmove q).1 hq
    exact ⟨target, hsum, LineTable.le_size_of_positionAt hat⟩
  · rintro ⟨target, hsum, hle⟩
    obtain ⟨q, hq⟩ := hplace hle
    exact ⟨q, (hlookup target hsum q).2 hq⟩

theorem movesRange (hsize : t.size < wordLimit) (hstart : r.start.offset < wordLimit)
    (hstop : r.stop.offset < wordLimit) (hd : IsSignedWord delta) : t.MovesRange r delta := by
  have hends (moved : Range) (h : t.moveRange r delta = .ok moved) :=
    moveRange_eq_ok_iff.1 h
  have hplaces (moved : Range) (h : t.moveRange r delta = .ok moved) :
      ∃ a b : Nat, (a : Int) = r.start.offset + delta ∧ (b : Int) = r.stop.offset + delta ∧
        (LineTable.ofText t).positionAt a = .ok moved.start ∧
        (LineTable.ofText t).positionAt b = .ok moved.stop := by
    obtain ⟨hfirst, hlast⟩ := hends moved h
    obtain ⟨a, ha, hata⟩ :=
      (LineTable.move_eq_ok_iff hsize hstart hd).1 (movePosition_eq_ok_iff.1 hfirst).1
    obtain ⟨b, hb, hatb⟩ :=
      (LineTable.move_eq_ok_iff hsize hstop hd).1 (movePosition_eq_ok_iff.1 hlast).1
    exact ⟨a, b, ha, hb, hata, hatb⟩
  have horder := LineTable.inOrder_ofText t
  refine ⟨⟨?_, ?_⟩, hends, fun moved h => ?_, fun moved h => ?_⟩
  · rintro ⟨moved, h⟩
    exact ⟨⟨_, (hends moved h).1⟩, _, (hends moved h).2⟩
  · rintro ⟨⟨p, hp⟩, q, hq⟩
    exact ⟨⟨p, q⟩, moveRange_eq_ok_iff.2 ⟨hp, hq⟩⟩
  · obtain ⟨a, b, ha, hb, hata, hatb⟩ := hplaces moved h
    have hfirst := ((LineTable.positionAt_eq_ok_iff horder).1 hata).1
    have hlast := ((LineTable.positionAt_eq_ok_iff horder).1 hatb).1
    simp only [Range.size, Range.span, Span.size]
    omega
  · obtain ⟨a, b, ha, hb, hata, hatb⟩ := hplaces moved h
    rw [Position.compare_eq hata hatb]
    rcases Nat.lt_trichotomy r.start.offset r.stop.offset with hlt | heq | hgt
    · rw [Nat.compare_eq_lt.2 hlt, Nat.compare_eq_lt.2 (by omega)]
    · rw [Nat.compare_eq_eq.2 heq, Nat.compare_eq_eq.2 (by omega)]
    · rw [Nat.compare_eq_gt.2 hgt, Nat.compare_eq_gt.2 (by omega)]

/-- Two checked moves one behind the other are one by the sum of both. -/
theorem movePosition_movePosition (hsize : t.size < wordLimit) (hp : p.offset < wordLimit)
    (hd : IsSignedWord delta) (hd' : IsSignedWord delta') (h : t.movePosition p delta = .ok q)
    (h' : t.movePosition q delta' = .ok s) :
    IsSignedWord (delta + delta') ∧ t.movePosition p (delta + delta') = .ok s := by
  obtain ⟨hq, -⟩ := movePosition_eq_ok_iff.1 h
  obtain ⟨hs, hboundary⟩ := movePosition_eq_ok_iff.1 h'
  obtain ⟨hsum, hmove⟩ :=
    LineTable.move_move hsize (LineTable.inOrder_ofText t) hp hd hd' hq hs
  exact ⟨hsum, movePosition_eq_ok_iff.2 ⟨hmove, hboundary⟩⟩

theorem moveRange_moveRange (hsize : t.size < wordLimit) (hstart : r.start.offset < wordLimit)
    (hstop : r.stop.offset < wordLimit) (hd : IsSignedWord delta) (hd' : IsSignedWord delta')
    (h : t.moveRange r delta = .ok moved) (h' : t.moveRange moved delta' = .ok again) :
    IsSignedWord (delta + delta') ∧ t.moveRange r (delta + delta') = .ok again := by
  obtain ⟨hfirst, hlast⟩ := moveRange_eq_ok_iff.1 h
  obtain ⟨hfirst', hlast'⟩ := moveRange_eq_ok_iff.1 h'
  obtain ⟨hsum, hfirst⟩ := movePosition_movePosition hsize hstart hd hd' hfirst hfirst'
  obtain ⟨-, hlast⟩ := movePosition_movePosition hsize hstop hd hd' hlast hlast'
  exact ⟨hsum, moveRange_eq_ok_iff.2 ⟨hfirst, hlast⟩⟩

/-- In a text that a word can measure, a position is moved to the place of the exact sum if that
lies between two characters of the text, and nowhere else; a line table does the same without the
check of characters; a range is moved by moving both ends, which keeps its size and their order;
and two moves one behind the other are one by the sum of both, which is a signed word again. -/
theorem moves_to_exact_sums (hsize : t.size < wordLimit) :
    (∀ p delta, p.offset < wordLimit → IsSignedWord delta → t.MovesPosition p delta) ∧
      (∀ r delta, r.start.offset < wordLimit → r.stop.offset < wordLimit → IsSignedWord delta →
        t.MovesRange r delta) ∧
      ∀ delta delta', IsSignedWord delta → IsSignedWord delta' →
        (∀ p q s, p.offset < wordLimit → t.movePosition p delta = .ok q →
          t.movePosition q delta' = .ok s →
          IsSignedWord (delta + delta') ∧ t.movePosition p (delta + delta') = .ok s) ∧
        (∀ offset p q, offset < wordLimit → (LineTable.ofText t).move offset delta = .ok p →
          (LineTable.ofText t).move p.offset delta' = .ok q →
          IsSignedWord (delta + delta') ∧
            (LineTable.ofText t).move offset (delta + delta') = .ok q) ∧
        ∀ r moved again, r.start.offset < wordLimit → r.stop.offset < wordLimit →
          t.moveRange r delta = .ok moved → t.moveRange moved delta' = .ok again →
          IsSignedWord (delta + delta') ∧ t.moveRange r (delta + delta') = .ok again := by
  refine ⟨fun p delta hp hd => movesPosition hsize hp hd,
    fun r delta hstart hstop hd => movesRange hsize hstart hstop hd,
    fun delta delta' hd hd' => ⟨fun p q s hp h h' => ?_, fun offset p q ho h h' => ?_,
      fun r moved again hstart hstop h h' => ?_⟩⟩
  · exact movePosition_movePosition hsize hp hd hd' h h'
  · exact LineTable.move_move hsize (LineTable.inOrder_ofText t) ho hd hd' h h'
  · exact moveRange_moveRange hsize hstart hstop hd hd' h h'

/-- Moves in front of the break, into the character, and past what a signed word can hold; the
line and the column of what is moved do not matter. -/
theorem moves_to_exact_sums_of_two_lines :
    let t : Text := ['é', '\n', 'b']
    let p : Position := ⟨8, 8, 4⟩
    let far : Position := ⟨0, 0, wordLimit - 1⟩
    t.size < wordLimit ∧ IsSignedWord (-2) ∧ IsSignedWord (wordLimit - 1) ∧
      t.movePosition p (-2) = .ok ⟨0, 2, 2⟩ ∧
      (¬∃ q, t.movePosition p (-3) = .ok q) ∧
      (∃ q, (LineTable.ofText t).move p.offset (-3) = .ok q) ∧
      (¬∃ q, (LineTable.ofText t).move far.offset (wordLimit - 1) = .ok q) ∧
      t.moveRange ⟨p, p⟩ (-2 + 1) = .ok ⟨⟨1, 0, 3⟩, ⟨1, 0, 3⟩⟩ := by
  intro t p far
  have hsize : t.size < wordLimit := by decide
  have hword (n : Int) (h : -4 ≤ n ∧ n ≤ 1) : IsSignedWord n := by
    simp only [IsSignedWord, wordLimit]
    omega
  have hlarge : IsSignedWord (wordLimit - 1) := by
    simp only [IsSignedWord, wordLimit]
    omega
  obtain ⟨hposition, -, hsuccessive⟩ := moves_to_exact_sums hsize
  have hback := hposition p (-2) (by decide) (hword _ (by decide))
  have hinside := hposition p (-3) (by decide) (hword _ (by decide))
  have hfar := hposition far (wordLimit - 1) (by decide) hlarge
  have htable : LineTable.ofText t = ⟨[0, 3], 4, some .lf⟩ := by decide +kernel
  have htwo : t.movePosition p (-2) = .ok ⟨0, 2, 2⟩ :=
    (hback.eq_ok_iff 2 (by decide) _).2
      (positionFromOffset_eq_ok_iff.2 ⟨htable ▸ rfl, by decide⟩)
  have hone : t.movePosition ⟨0, 2, 2⟩ 1 = .ok ⟨1, 0, 3⟩ :=
    ((hposition ⟨0, 2, 2⟩ 1 (by decide) (hword _ (by decide))).eq_ok_iff 3 (by decide) _).2
      (positionFromOffset_eq_ok_iff.2 ⟨htable ▸ rfl, by decide⟩)
  have hrangeTwo : t.moveRange ⟨p, p⟩ (-2) = .ok ⟨⟨0, 2, 2⟩, ⟨0, 2, 2⟩⟩ :=
    moveRange_eq_ok_iff.2 ⟨htwo, htwo⟩
  have hrangeOne : t.moveRange ⟨⟨0, 2, 2⟩, ⟨0, 2, 2⟩⟩ 1 = .ok ⟨⟨1, 0, 3⟩, ⟨1, 0, 3⟩⟩ :=
    moveRange_eq_ok_iff.2 ⟨hone, hone⟩
  refine ⟨hsize, hword _ (by decide), hlarge, htwo, ?_, ?_, ?_, ?_⟩
  · rw [hinside.exists_iff]
    rintro ⟨target, hsum, -, hboundary⟩
    obtain rfl : target = 1 := by
      dsimp only [p] at hsum
      omega
    exact absurd hboundary (by decide)
  · refine hinside.unchecked_exists_iff.2 ⟨1, by decide, by decide⟩
  · rw [hfar.unchecked_exists_iff]
    rintro ⟨target, hsum, hle⟩
    have hsmall : t.size = 4 := by decide
    dsimp only [far, wordLimit] at hsum
    omega
  · exact ((hsuccessive (-2) 1 (hword _ (by decide)) (hword _ (by decide))).2.2 ⟨p, p⟩ _ _
      (by decide) (by decide) hrangeTwo hrangeOne).2

end Text

end BoundTemplate
