import BoundTemplate.Proofs.Text.Part
import BoundTemplate.Text.Locate

/-!
# Offsets, lines and columns

The lines of a text start in strictly increasing order, the first at zero, so every
offset of the text stands on exactly one line. The search by offset and the search by line
and column both find that line, which makes them inverse to each other.
-/

namespace BoundTemplate

/-- The breaks of some bytes end one behind the other, inside of the bytes. -/
theorem LineBreak.scan_sorted (start : Nat) (bytes : List UInt8) :
    ((scan start bytes).map (·.1)).Pairwise (· < ·) ∧
      ∀ stop ∈ (scan start bytes).map (·.1), start < stop ∧ stop ≤ start + bytes.length := by
  fun_induction scan start bytes with
  | case1 => simp
  | case2 start x rest b hb ih =>
    obtain ⟨hsorted, hbound⟩ := ih
    have hpos := b.width_pos
    have hle := width_le_length_of_read? hb
    simp only [List.length_drop, List.length_cons] at hbound hle ⊢
    rw [List.map_cons, List.pairwise_cons]
    refine ⟨⟨fun stop hstop => (hbound stop hstop).1, hsorted⟩, fun stop hstop => ?_⟩
    rcases List.mem_cons.1 hstop with rfl | hstop
    · dsimp only
      omega
    · have hstop := hbound stop hstop
      omega
  | case3 start x rest hnone ih =>
    obtain ⟨hsorted, hbound⟩ := ih
    refine ⟨hsorted, fun stop hstop => ?_⟩
    have hstop := hbound stop hstop
    simp only [List.length_cons]
    omega

namespace LineTable

variable {table : LineTable} {line column line' column' offset offset' : Nat} {p p' : Position}

/-- The lines of a table start inside of the text, the first at zero and each behind the one before
it. -/
structure InOrder (table : LineTable) : Prop where
  first : table.starts[0]? = some 0
  sorted : table.starts.Pairwise (· < ·)
  le_size : ∀ start ∈ table.starts, start ≤ table.size

theorem inOrder_ofText (t : Text) : (ofText t).InOrder := by
  obtain ⟨hsorted, hbound⟩ := LineBreak.scan_sorted 0 t.bytes
  rw [Text.length_bytes] at hbound
  refine ⟨rfl, List.pairwise_cons.2 ⟨fun start h => (hbound start h).1, hsorted⟩,
    fun start h => ?_⟩
  rcases List.mem_cons.1 h with rfl | h
  · exact Nat.zero_le _
  · have hle := (hbound start h).2
    rwa [Nat.zero_add] at hle

/-- A line starts in front of the one behind it. -/
theorem InOrder.lt_next (h : table.InOrder) {start next : Nat}
    (hstart : table.starts[line]? = some start) (hnext : table.starts[line + 1]? = some next) :
    start < next := by
  obtain ⟨hline, rfl⟩ := List.getElem?_eq_some_iff.1 hstart
  obtain ⟨hline', rfl⟩ := List.getElem?_eq_some_iff.1 hnext
  exact List.pairwise_iff_getElem.1 h.sorted _ _ hline hline' (Nat.lt_succ_self line)

/-- In a strictly increasing list, as many members as stand in front of one are smaller than it. -/
theorem le_iff_lt_countP {starts : List Nat} (h : starts.Pairwise (· < ·)) {i start : Nat}
    (hi : starts[i]? = some start) : start ≤ offset ↔ i < starts.countP (· ≤ offset) := by
  induction starts generalizing i with
  | nil => cases hi
  | cons first starts ih =>
    obtain ⟨hfirst, hrest⟩ := List.pairwise_cons.1 h
    by_cases hle : first ≤ offset
    · rw [List.countP_cons_of_pos (by simpa using hle)]
      cases i with
      | zero =>
        cases hi
        simpa using hle
      | succ i => rw [ih hrest hi, Nat.succ_lt_succ_iff]
    · -- A list whose first member is too large has no member that is not.
      have hnone : (first :: starts).countP (· ≤ offset) = 0 := by
        refine List.countP_eq_zero.2 fun start hmem => ?_
        rcases List.mem_cons.1 hmem with rfl | hmem
        · simpa using hle
        · have hlt := hfirst start hmem
          simp only [decide_eq_true_eq]
          omega
      have hlarge : first ≤ start := by
        rcases List.mem_cons.1 (List.mem_of_getElem? hi) with rfl | hmem
        · exact Nat.le_refl _
        · exact Nat.le_of_lt (hfirst start hmem)
      rw [hnone]
      omega

/-- An offset stands on a line, some columns behind its start and in front of the next line. -/
def Stands (table : LineTable) (line column offset : Nat) : Prop :=
  ∃ start, table.starts[line]? = some start ∧ offset = start + column ∧ offset ≤ table.size ∧
    ∀ next, table.starts[line + 1]? = some next → offset < next

/-- The line of an offset is the only one it stands on. -/
theorem Stands.lineOf_eq (h : table.InOrder) (hs : table.Stands line column offset) :
    table.lineOf offset = line := by
  obtain ⟨start, hstart, rfl, -, hnext⟩ := hs
  have hlt := (le_iff_lt_countP h.sorted hstart).1 (Nat.le_add_right start column)
  have hle : table.starts.countP (· ≤ start + column) ≤ line + 1 := by
    cases hn : table.starts[line + 1]? with
    | none =>
      exact Nat.le_trans List.countP_le_length (List.getElem?_eq_none_iff.1 hn)
    | some next =>
      have hlt := hnext next hn
      have hnot := mt (le_iff_lt_countP h.sorted hn).2 (Nat.not_le_of_lt hlt)
      omega
  unfold lineOf
  omega

/-- Every offset of the text stands on its line, in its column. -/
theorem stands_position (h : table.InOrder) (hle : offset ≤ table.size) :
    table.Stands (table.position offset).line (table.position offset).column offset := by
  have hpos := (le_iff_lt_countP h.sorted h.first).1 (Nat.zero_le offset)
  have hlast : table.starts.countP (· ≤ offset) ≤ table.starts.length := List.countP_le_length
  have hrank : table.lineOf offset < table.starts.countP (· ≤ offset) := by
    unfold lineOf
    omega
  have hline : table.lineOf offset < table.starts.length := Nat.lt_of_lt_of_le hrank hlast
  have hstart := List.getElem?_eq_getElem hline
  have hcolumn : (table.position offset).column = offset - table.starts[table.lineOf offset] := by
    simp only [position, List.getD_eq_getElem?_getD, hstart, Option.getD_some]
  have hfront := (le_iff_lt_countP h.sorted hstart).2 hrank
  refine ⟨_, hstart, ?_, hle, fun next hnext => Nat.lt_of_not_le fun hbehind => ?_⟩
  · rw [hcolumn]
    omega
  · have hrank' := (le_iff_lt_countP h.sorted hnext).1 hbehind
    simp only [position, lineOf] at hrank'
    omega

theorem positionAt_eq_ok_iff (h : table.InOrder) :
    table.positionAt offset = .ok p ↔
      p.offset = offset ∧ table.Stands p.line p.column offset := by
  unfold positionAt
  split
  · next hlt =>
    refine ⟨fun hp => (by cases hp), fun ⟨_, _, _, _, hle, _⟩ => ?_⟩
    omega
  · next hle =>
    have hstands := stands_position h (Nat.le_of_not_lt hle)
    refine ⟨fun hp => ?_, fun ⟨hoffset, hs⟩ => ?_⟩
    · cases hp
      exact ⟨rfl, hstands⟩
    · obtain ⟨line, column, offset'⟩ := p
      have hline : (table.position offset).line = line := hs.lineOf_eq h
      dsimp only at hoffset hs
      rw [hline] at hstands
      obtain ⟨start, hstart, heq, -⟩ := hs
      obtain ⟨start', hstart', heq', -⟩ := hstands
      cases hstart.symm.trans hstart'
      have hcolumn : (table.position offset).column = column := by omega
      rw [← hline, ← hcolumn, hoffset]
      rfl

/-- The column may be that of any offset in front of the next line, or any up to the end of the
text on the last line. -/
theorem offsetAt_eq_ok_iff (h : table.InOrder) :
    table.offsetAt line column = .ok offset ↔ table.Stands line column offset := by
  unfold offsetAt Stands maxColumn
  cases hstart : table.starts[line]? with
  | none => simp
  | some start =>
    have hle := h.le_size start (List.mem_of_getElem? hstart)
    cases hnext : table.starts[line + 1]? with
    | none =>
      simp only [Option.some.injEq, exists_eq_left', reduceCtorEq, false_imp_iff, implies_true,
        and_true]
      split
      · simp only [reduceCtorEq, false_iff]
        omega
      · simp only [Except.ok.injEq]
        omega
    | some next =>
      have hbefore := h.lt_next hstart hnext
      have hlast := h.le_size next (List.mem_of_getElem? hnext)
      simp only [Option.some.injEq, exists_eq_left', forall_eq']
      split
      · simp only [reduceCtorEq, false_iff]
        omega
      · simp only [Except.ok.injEq]
        omega

theorem positionAtLineColumn_eq_ok_iff (h : table.InOrder) :
    table.positionAtLineColumn line column = .ok p ↔
      p.line = line ∧ p.column = column ∧ table.Stands line column p.offset := by
  rw [← offsetAt_eq_ok_iff h, positionAtLineColumn]
  obtain ⟨pline, pcolumn, poffset⟩ := p
  cases table.offsetAt line column with
  | error e =>
    refine ⟨fun hp => ?_, fun ⟨_, _, ho⟩ => ?_⟩
    · cases hp
    · cases ho
  | ok offset =>
    refine ⟨fun hp => ?_, fun ⟨hline, hcolumn, ho⟩ => ?_⟩
    · cases hp
      exact ⟨rfl, rfl, rfl⟩
    · cases ho
      rw [← hline, ← hcolumn]
      rfl

/-- A later offset stands on a later line, or on the same line in a later column. -/
theorem Stands.compare_eq_lt (h : table.InOrder) (hs : table.Stands p.line p.column p.offset)
    (hs' : table.Stands p'.line p'.column p'.offset) (hlt : p.offset < p'.offset) :
    p.compare p' = .lt := by
  have hle : p.line ≤ p'.line := by
    rw [← hs.lineOf_eq h, ← hs'.lineOf_eq h]
    refine Nat.sub_le_sub_right (List.countP_mono_left fun start _ hstart => ?_) 1
    simp only [decide_eq_true_eq] at hstart ⊢
    omega
  rcases Nat.lt_or_eq_of_le hle with hline | hline
  · rw [Position.compare, Nat.compare_eq_lt.2 hline]
    rfl
  · obtain ⟨start, hstart, heq, -⟩ := hs
    obtain ⟨start', hstart', heq', -⟩ := hs'
    rw [hline] at hstart
    cases hstart.symm.trans hstart'
    have hcolumn : p.column < p'.column := by omega
    rw [Position.compare, Nat.compare_eq_eq.2 hline, Nat.compare_eq_lt.2 hcolumn]
    rfl

end LineTable

namespace Text

variable {t : Text} {line column offset : Nat} {p : Position}

theorem checkBoundary_eq_ok_iff : t.checkBoundary offset = .ok () ↔ t.isBoundary offset = true := by
  refine ⟨isBoundary_of_checkBoundary, fun h => ?_⟩
  rw [checkBoundary, if_neg (Nat.not_lt_of_le (le_size_of_isBoundary h)), if_pos h]

/-- A check in front of a result lets it through between two characters. -/
theorem checkBoundary_bind_eq_ok_iff {α : Type} {result : Except LocationError α} {a : α} :
    (t.checkBoundary offset >>= fun _ => result) = .ok a ↔
      result = .ok a ∧ t.isBoundary offset = true := by
  rw [← checkBoundary_eq_ok_iff]
  cases hcheck : t.checkBoundary offset with
  | error e =>
    refine ⟨fun h => ?_, fun ⟨_, h⟩ => ?_⟩
    · cases h
    · cases h
  | ok u => exact ⟨fun h => ⟨h, rfl⟩, fun ⟨h, _⟩ => h⟩

theorem positionFromOffset_eq_ok_iff :
    t.positionFromOffset offset = .ok p ↔
      (LineTable.ofText t).positionAt offset = .ok p ∧ t.isBoundary offset = true :=
  checkBoundary_bind_eq_ok_iff

theorem positionFromLineColumn_eq_ok_iff :
    t.positionFromLineColumn line column = .ok p ↔
      (LineTable.ofText t).positionAtLineColumn line column = .ok p ∧
        t.isBoundary p.offset = true := by
  unfold positionFromLineColumn
  cases (LineTable.ofText t).positionAtLineColumn line column with
  | error e =>
    refine ⟨fun h => ?_, fun ⟨h, _⟩ => ?_⟩
    · cases h
    · cases h
  | ok q =>
    refine checkBoundary_bind_eq_ok_iff.trans ⟨fun ⟨h, hq⟩ => ?_, fun ⟨h, hq⟩ => ?_⟩
    · cases h
      exact ⟨rfl, hq⟩
    · cases h
      exact ⟨rfl, hq⟩

end Text

namespace LineTable

/-- Offsets and pairs of a line and a column are in bijection. Exactly the offsets up to the end of
the text have a position, which grows strictly with the offset; a line and a column lead back to an
offset exactly if the position of the offset has them; and the checked conversions do the same for
the offsets between two characters, and for no others. -/
theorem offsets_biject_line_columns (t : Text) :
    (∀ offset, (∃ p, (ofText t).positionAt offset = .ok p) ↔ offset ≤ t.size) ∧
      (∀ offset p, (ofText t).positionAt offset = .ok p → p.offset = offset) ∧
      (∀ offset offset' p p', (ofText t).positionAt offset = .ok p →
        (ofText t).positionAt offset' = .ok p' → offset < offset' → p.compare p' = .lt) ∧
      (∀ line column offset, (ofText t).offsetAt line column = .ok offset ↔
        ∃ p, (ofText t).positionAt offset = .ok p ∧ p.line = line ∧ p.column = column) ∧
      (∀ line column p, (ofText t).positionAtLineColumn line column = .ok p ↔
        (ofText t).positionAt p.offset = .ok p ∧ p.line = line ∧ p.column = column) ∧
      (∀ offset p, t.positionFromOffset offset = .ok p ↔
        (ofText t).positionAt offset = .ok p ∧ t.isBoundary offset = true) ∧
      ∀ line column p, t.positionFromLineColumn line column = .ok p ↔
        t.positionFromOffset p.offset = .ok p ∧ p.line = line ∧ p.column = column := by
  have h := inOrder_ofText t
  -- Both lookups are the same relation between a line, a column and an offset.
  have hlookup : ∀ line column p, (ofText t).positionAtLineColumn line column = .ok p ↔
      (ofText t).positionAt p.offset = .ok p ∧ p.line = line ∧ p.column = column := by
    intro line column p
    rw [positionAtLineColumn_eq_ok_iff h, positionAt_eq_ok_iff h]
    refine ⟨fun ⟨hline, hcolumn, hs⟩ => ?_, fun ⟨⟨_, hs⟩, hline, hcolumn⟩ => ?_⟩
    · exact ⟨⟨rfl, by rwa [hline, hcolumn]⟩, hline, hcolumn⟩
    · exact ⟨hline, hcolumn, by rwa [← hline, ← hcolumn]⟩
  refine ⟨fun offset => ⟨fun ⟨p, hp⟩ => ?_, fun hle => ?_⟩, fun offset p hp => ?_,
    fun offset offset' p p' hp hp' hlt => ?_, fun line column offset => ⟨fun ho => ?_, ?_⟩,
    hlookup, fun _ _ => Text.positionFromOffset_eq_ok_iff, fun line column p => ?_⟩
  · obtain ⟨-, start, -, -, hle, -⟩ := (positionAt_eq_ok_iff h).1 hp
    exact hle
  · exact ⟨_, if_neg (Nat.not_lt_of_le hle)⟩
  · exact ((positionAt_eq_ok_iff h).1 hp).1
  · obtain ⟨rfl, hs⟩ := (positionAt_eq_ok_iff h).1 hp
    obtain ⟨rfl, hs'⟩ := (positionAt_eq_ok_iff h).1 hp'
    exact hs.compare_eq_lt h hs' hlt
  · have hs := (offsetAt_eq_ok_iff h).1 ho
    exact ⟨⟨line, column, offset⟩, (positionAt_eq_ok_iff h).2 ⟨rfl, hs⟩, rfl, rfl⟩
  · rintro ⟨p, hp, rfl, rfl⟩
    exact (offsetAt_eq_ok_iff h).2 ((positionAt_eq_ok_iff h).1 hp).2
  · rw [Text.positionFromLineColumn_eq_ok_iff, hlookup, Text.positionFromOffset_eq_ok_iff,
      and_right_comm]

/-- The line feed of a break of two characters belongs to the line in front, and no checked position
stands inside a character. -/
theorem offsets_biject_line_columns_of_crlf :
    let t : Text := ['é', '\r', '\n', 'b']
    (ofText t).offsetAt 0 3 = .ok 3 ∧
      (⟨0, 2, 2⟩ : Position).compare ⟨0, 3, 3⟩ = .lt ∧
      (⟨0, 3, 3⟩ : Position).compare ⟨1, 0, 4⟩ = .lt ∧
      ¬∃ p, t.positionFromLineColumn 0 1 = .ok p := by
  intro t
  obtain ⟨-, -, hmono, hoffset, hlookup, hchecked, hpair⟩ := offsets_biject_line_columns t
  have htable : ofText t = ⟨[0, 4], 5, some .crlf⟩ := by decide +kernel
  have h₂ : (ofText t).positionAt 2 = .ok ⟨0, 2, 2⟩ := htable ▸ rfl
  have h₃ : (ofText t).positionAt 3 = .ok ⟨0, 3, 3⟩ := htable ▸ rfl
  have h₄ : (ofText t).positionAt 4 = .ok ⟨1, 0, 4⟩ := htable ▸ rfl
  refine ⟨(hoffset 0 3 3).2 ⟨_, h₃, rfl, rfl⟩, hmono 2 3 _ _ h₂ h₃ (by decide),
    hmono 3 4 _ _ h₃ h₄ (by decide), fun ⟨p, hp⟩ => ?_⟩
  obtain ⟨hp, hline, hcolumn⟩ := (hpair 0 1 p).1 hp
  obtain ⟨hat, hboundary⟩ := (hchecked p.offset p).1 hp
  have ho := (hoffset 0 1 p.offset).2 ⟨p, hat, hline, hcolumn⟩
  have ho' : (ofText t).offsetAt 0 1 = .ok 1 := htable ▸ rfl
  have hinside : t.isBoundary 1 = false := by decide
  rw [← Except.ok.inj (ho'.symm.trans ho), hinside] at hboundary
  cases hboundary

end LineTable

end BoundTemplate
