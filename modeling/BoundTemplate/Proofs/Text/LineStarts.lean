import Mathlib.Data.Set.Card
import BoundTemplate.Proofs.Text.LineTable

/-!
# Where lines start

A break may be told by what stands around its end, with no scan from the front: a line feed ends
one, and so does a carriage return that no line feed follows. The scan finds exactly these
breaks, so a text has one line more than it has breaks, and the line of an offset is the number
of breaks that end in front of it or at it.
-/

namespace BoundTemplate

namespace LineBreak

variable {b b' : LineBreak} {x : UInt8} {rest bytes : List UInt8} {start stop : Nat}

/-- A break ends at an offset of some bytes: its characters stand in front of the offset, and they
are not one half of a pair. -/
def EndsAt (b : LineBreak) (bytes : List UInt8) (stop : Nat) : Prop :=
  ∃ front back, bytes = front ++ Text.bytes b.text.toList ++ back ∧
    stop = front.length + b.width ∧
    (b = lf → front.getLast? ≠ some carriageReturn) ∧ (b = cr → back.head? ≠ some lineFeed)

theorem bytes_text_lf : Text.bytes lf.text.toList = [lineFeed] := rfl

theorem bytes_text_crlf : Text.bytes crlf.text.toList = [carriageReturn, lineFeed] := rfl

theorem bytes_text_cr : Text.bytes cr.text.toList = [carriageReturn] := rfl

theorem lineFeed_ne_carriageReturn : lineFeed ≠ carriageReturn := by decide

/-- The break at the head of some bytes is the one whose characters they begin with, where a
carriage return in front of a line feed is no break of its own. -/
theorem read?_eq_some_iff : read? bytes = some b ↔
    ∃ back, bytes = Text.bytes b.text.toList ++ back ∧ (b = cr → back.head? ≠ some lineFeed) := by
  have hne := lineFeed_ne_carriageReturn
  refine ⟨fun h => ?_, ?_⟩
  · cases bytes with
    | nil => cases h
    | cons x rest =>
      simp only [read?] at h
      split at h
      · next hx =>
        cases h
        exact ⟨rest, by rw [hx, bytes_text_lf]; rfl, by rintro ⟨⟩⟩
      · split at h
        · next hx =>
          split at h
          · next hrest =>
            cases h
            obtain ⟨back, rfl⟩ := List.head?_eq_some_iff.1 hrest
            exact ⟨back, by rw [hx, bytes_text_crlf]; rfl, by rintro ⟨⟩⟩
          · next hrest =>
            cases h
            exact ⟨rest, by rw [hx, bytes_text_cr]; rfl, fun _ => hrest⟩
        · cases h
  · rintro ⟨back, rfl, hback⟩
    cases b with
    | lf => simp [bytes_text_lf, read?]
    | crlf => simp [bytes_text_crlf, read?, hne.symm]
    | cr => simp [bytes_text_cr, read?, hne.symm, hback rfl]

/-- No break is read at a byte that begins none. -/
theorem read?_eq_none_iff : read? (x :: rest) = none ↔ isBreakByte x = false := by
  simp only [read?, isBreakByte, Bool.or_eq_false_iff, decide_eq_false_iff_not]
  split
  · simp_all
  · split
    · split <;> simp_all
    · simp_all

/-- A break that ends behind a byte either begins with it, or ends in the bytes behind it, where it
is not the second half of a pair. -/
theorem endsAt_cons_iff : b.EndsAt (x :: rest) stop ↔
    (read? (x :: rest) = some b ∧ stop = b.width) ∨
      ∃ stop', stop = stop' + 1 ∧ b.EndsAt rest stop' ∧
        ¬(x = carriageReturn ∧ b = lf ∧ stop' = 1) := by
  refine ⟨?_, ?_⟩
  · rintro ⟨front, back, hbytes, rfl, hfront, hback⟩
    cases front with
    | nil => exact .inl ⟨read?_eq_some_iff.2 ⟨back, hbytes, hback⟩, Nat.zero_add _⟩
    | cons y front =>
      obtain ⟨rfl, rfl⟩ := List.cons.inj hbytes
      refine .inr ⟨front.length + b.width, by rw [List.length_cons]; omega,
        ⟨front, back, rfl, rfl, fun hb => ?_, hback⟩, ?_⟩
      · cases front with
        | nil => rintro ⟨⟩
        | cons y front => exact hfront hb
      · rintro ⟨rfl, rfl, hone⟩
        have hnil : front = [] := List.length_eq_zero_iff.1 (Nat.add_right_cancel hone)
        exact hfront rfl (by rw [hnil]; rfl)
  · rintro (⟨hread, rfl⟩ | ⟨stop', rfl, ⟨front, back, rfl, rfl, hfront, hback⟩, hpair⟩)
    · obtain ⟨back, hbytes, hback⟩ := read?_eq_some_iff.1 hread
      exact ⟨[], back, hbytes, (Nat.zero_add _).symm, by simp, hback⟩
    · refine ⟨x :: front, back, rfl, by rw [List.length_cons]; omega, fun hb => ?_, hback⟩
      cases front with
      | nil =>
        subst hb
        exact fun hx => hpair ⟨Option.some.inj hx, rfl, rfl⟩
      | cons y front => exact hfront hb

theorem EndsAt.pos (h : b.EndsAt bytes stop) : 0 < stop := by
  obtain ⟨front, back, -, rfl, -⟩ := h
  have hpos := b.width_pos
  omega

/-- The only break that ends behind a single byte begins with it. -/
theorem read?_of_endsAt_one (h : b.EndsAt bytes 1) : read? bytes = some b := by
  obtain ⟨front, back, rfl, hone, -, hback⟩ := h
  have hpos := b.width_pos
  have hnil : front = [] := List.length_eq_zero_iff.1 (by omega)
  exact read?_eq_some_iff.2 ⟨back, by rw [hnil]; rfl, hback⟩

/-- Behind a byte that begins no break, the breaks are those of the bytes behind it. -/
theorem endsAt_cons_iff_of_read?_eq_none (h : read? (x :: rest) = none) :
    b.EndsAt (x :: rest) stop ↔ ∃ stop', stop = stop' + 1 ∧ b.EndsAt rest stop' := by
  have hx : x ≠ carriageReturn := by
    have hbyte := read?_eq_none_iff.1 h
    simp only [isBreakByte, Bool.or_eq_false_iff, decide_eq_false_iff_not] at hbyte
    exact hbyte.2
  simp only [endsAt_cons_iff, h, reduceCtorEq, false_and, false_or, hx, not_false_eq_true,
    and_true]

/-- Behind a break that is read, the breaks are those of the bytes behind all of it. -/
theorem endsAt_cons_iff_of_read?_eq_some (h : read? (x :: rest) = some b') :
    b.EndsAt (x :: rest) stop ↔ (b = b' ∧ stop = b'.width) ∨
      ∃ stop', stop = b'.width + stop' ∧ b.EndsAt (rest.drop (b'.width - 1)) stop' := by
  have hhead : (read? (x :: rest) = some b ∧ stop = b.width) ↔ (b = b' ∧ stop = b'.width) := by
    rw [h, Option.some.injEq]
    constructor
    all_goals
      rintro ⟨rfl, rfl⟩
      exact ⟨rfl, rfl⟩
  rw [endsAt_cons_iff, hhead]
  refine or_congr_right ⟨?_, ?_⟩
  · rintro ⟨stop', rfl, hstop, hpair⟩
    cases b' with
    | lf => exact ⟨stop', Nat.add_comm .., hstop⟩
    | cr => exact ⟨stop', Nat.add_comm .., hstop⟩
    | crlf =>
      obtain ⟨back, hbytes, -⟩ := read?_eq_some_iff.1 h
      obtain ⟨rfl, rfl⟩ := List.cons.inj hbytes
      rcases endsAt_cons_iff.1 hstop with ⟨hread, rfl⟩ | ⟨stop', rfl, hstop, -⟩
      · cases hread
        exact absurd ⟨rfl, rfl, rfl⟩ hpair
      · exact ⟨stop', by rw [width]; omega, hstop⟩
  · rintro ⟨stop', rfl, hstop⟩
    obtain ⟨back, hbytes, hback⟩ := read?_eq_some_iff.1 h
    cases b' with
    | lf =>
      refine ⟨stop', Nat.add_comm .., hstop, fun hpair => ?_⟩
      exact lineFeed_ne_carriageReturn ((List.cons.inj hbytes).1.symm.trans hpair.1)
    | cr =>
      -- A line feed behind the carriage return would make it a pair.
      refine ⟨stop', Nat.add_comm .., hstop, ?_⟩
      rintro ⟨-, rfl, rfl⟩
      obtain ⟨back', hrest, -⟩ := read?_eq_some_iff.1 (read?_of_endsAt_one hstop)
      have hback' : lineFeed :: back' = back := hrest.symm.trans (List.cons.inj hbytes).2
      exact hback rfl (hback' ▸ rfl)
    | crlf =>
      obtain ⟨rfl, rfl⟩ := List.cons.inj hbytes
      have hpos := hstop.pos
      refine ⟨stop' + 1, by rw [width]; omega, endsAt_cons_iff.2 (.inr ⟨stop', rfl, hstop, ?_⟩), ?_⟩
      · exact fun hpair => lineFeed_ne_carriageReturn hpair.1
      · rintro ⟨-, -, hone⟩
        omega

/-- The scan finds the breaks of some bytes, each where it ends. -/
theorem mem_scan_iff {offset : Nat} : (offset, b) ∈ scan start bytes ↔
    ∃ stop, offset = start + stop ∧ b.EndsAt bytes stop := by
  fun_induction scan start bytes with
  | case1 start =>
    simp only [List.not_mem_nil, false_iff]
    rintro ⟨stop, -, front, back, hbytes, -⟩
    cases b <;> simp [bytes_text_lf, bytes_text_crlf, bytes_text_cr] at hbytes
  | case2 start x rest b' hb ih =>
    simp only [List.mem_cons, Prod.mk.injEq, ih, endsAt_cons_iff_of_read?_eq_some hb]
    refine ⟨?_, ?_⟩
    · rintro (⟨rfl, rfl⟩ | ⟨stop, rfl, hstop⟩)
      · exact ⟨b.width, rfl, .inl ⟨rfl, rfl⟩⟩
      · exact ⟨b'.width + stop, Nat.add_assoc .., .inr ⟨stop, rfl, hstop⟩⟩
    · rintro ⟨stop, rfl, ⟨rfl, rfl⟩ | ⟨stop, rfl, hstop⟩⟩
      · exact .inl ⟨rfl, rfl⟩
      · exact .inr ⟨stop, (Nat.add_assoc ..).symm, hstop⟩
  | case3 start x rest hnone ih =>
    simp only [ih, endsAt_cons_iff_of_read?_eq_none hnone]
    refine ⟨?_, ?_⟩
    · rintro ⟨stop, rfl, hstop⟩
      exact ⟨stop + 1, by omega, stop, rfl, hstop⟩
    · rintro ⟨_, rfl, stop, rfl, hstop⟩
      exact ⟨stop, by omega, hstop⟩

/-- An offset has at most one break that ends there. -/
theorem EndsAt.unique (h : b.EndsAt bytes stop) (h' : b'.EndsAt bytes stop) : b = b' := by
  have hmem := mem_scan_iff.2 ⟨stop, (Nat.zero_add stop).symm, h⟩
  have hmem' := mem_scan_iff.2 ⟨stop, (Nat.zero_add stop).symm, h'⟩
  have hnodup := (scan_sorted 0 bytes).1.imp Nat.ne_of_lt
  exact (Prod.mk.inj (List.inj_on_of_nodup_map hnodup hmem hmem' rfl)).2

/-- A byte of some bytes, between those in front of it and those behind it. -/
theorem exists_eq_append_of_getElem? {i : Nat} (h : bytes[i]? = some x) :
    ∃ front back, bytes = front ++ x :: back ∧ front.length = i := by
  obtain ⟨hi, rfl⟩ := List.getElem?_eq_some_iff.1 h
  refine ⟨bytes.take i, bytes.drop (i + 1), ?_, List.length_take_of_le (Nat.le_of_lt hi)⟩
  rw [← List.drop_eq_getElem_cons hi, List.take_append_drop]

theorem getElem?_append_cons_succ (front back : List UInt8) (x : UInt8) :
    (front ++ x :: back)[front.length + 1]? = back.head? := by
  rw [List.getElem?_append_right (Nat.le_add_right _ 1), Nat.add_sub_cancel_left,
    List.getElem?_cons_succ, List.head?_eq_getElem?]

/-- Which bytes stand around the end of a break: a line feed in front, or a carriage return in front
and no line feed behind. -/
theorem exists_endsAt_iff : (∃ b, EndsAt b bytes stop) ↔
    0 < stop ∧ (bytes[stop - 1]? = some lineFeed ∨
      bytes[stop - 1]? = some carriageReturn ∧ bytes[stop]? ≠ some lineFeed) := by
  refine ⟨?_, ?_⟩
  · rintro ⟨b, front, back, rfl, rfl, -, hback⟩
    cases b with
    | lf => simp [bytes_text_lf, width]
    | crlf => simp [bytes_text_crlf, width]
    | cr => simp [bytes_text_cr, width, getElem?_append_cons_succ, hback rfl]
  · rintro ⟨hpos, hfeed | ⟨hreturn, hnext⟩⟩
    · obtain ⟨front, back, rfl, hlength⟩ := exists_eq_append_of_getElem? hfeed
      by_cases hpair : front.getLast? = some carriageReturn
      · obtain ⟨front, rfl⟩ := List.getLast?_eq_some_iff.1 hpair
        rw [List.length_append, List.length_singleton] at hlength
        exact ⟨crlf, front, back, by simp [bytes_text_crlf], by rw [width]; omega,
          by rintro ⟨⟩, by rintro ⟨⟩⟩
      · exact ⟨lf, front, back, by simp [bytes_text_lf], by rw [width]; omega, fun _ => hpair,
          by rintro ⟨⟩⟩
    · obtain ⟨front, back, rfl, hlength⟩ := exists_eq_append_of_getElem? hreturn
      refine ⟨cr, front, back, by simp [bytes_text_cr], by rw [width]; omega, by rintro ⟨⟩,
        fun _ => ?_⟩
      have hstop : stop = front.length + 1 := by omega
      rwa [hstop, getElem?_append_cons_succ] at hnext

/-- The style of a text is that of the first break of its scan. -/
theorem read?_dropWhile (start : Nat) (bytes : List UInt8) :
    read? (bytes.dropWhile (!isBreakByte ·)) = (scan start bytes).head?.map (·.2) := by
  fun_induction scan start bytes with
  | case1 => rfl
  | case2 start x rest b hb ih =>
    have hx : isBreakByte x = true := by
      by_contra hx
      rw [read?_eq_none_iff.2 (Bool.eq_false_iff.2 hx)] at hb
      cases hb
    rw [List.dropWhile_cons_of_neg (by rw [hx]; decide), hb]
    rfl
  | case3 start x rest hnone ih =>
    rw [List.dropWhile_cons_of_pos (by rw [read?_eq_none_iff.1 hnone]; rfl), ih]

/-- A break of some bytes is found once: there are as many as the scan lists. -/
theorem ncard_endsAt (bytes : List UInt8) (p : Nat → Prop) [DecidablePred p] :
    {x : Nat × LineBreak | x.2.EndsAt bytes x.1 ∧ p x.1}.ncard =
      ((scan 0 bytes).map (·.1)).countP (p ·) := by
  have hnodup : (scan 0 bytes).Nodup :=
    List.Nodup.of_map _ ((scan_sorted 0 bytes).1.imp Nat.ne_of_lt)
  have hset : {x : Nat × LineBreak | x.2.EndsAt bytes x.1 ∧ p x.1} =
      ((scan 0 bytes).filter (p ·.1)).toFinset := by
    ext ⟨stop, b⟩
    simp [mem_scan_iff]
  rw [hset, Set.ncard_coe_finset, List.toFinset_card_of_nodup (hnodup.filter _), List.countP_map,
    List.countP_eq_length_filter]
  rfl

end LineBreak

namespace LineTable

open LineBreak

variable {t : Text} {offset : Nat} {b : LineBreak}

theorem mem_starts_ofText : offset ∈ (ofText t).starts ↔
    offset = 0 ∨ ∃ b, EndsAt b t.bytes offset := by
  simp only [ofText, List.mem_cons, List.mem_map, Prod.exists, exists_and_right, exists_eq_right,
    mem_scan_iff, Nat.zero_add, exists_eq_left']

theorem lineCount_ofText (t : Text) :
    (ofText t).lineCount = 1 + {x : Nat × LineBreak | x.2.EndsAt t.bytes x.1}.ncard := by
  have hcount := ncard_endsAt t.bytes fun _ => True
  simp only [and_true, decide_true, List.countP_true] at hcount
  rw [hcount, lineCount, ofText, List.length_cons, Nat.add_comm]

/-- The line of an offset is the number of breaks in front of it. -/
theorem lineOf_ofText (t : Text) (offset : Nat) : (ofText t).lineOf offset =
    {x : Nat × LineBreak | x.2.EndsAt t.bytes x.1 ∧ x.1 ≤ offset}.ncard := by
  rw [ncard_endsAt t.bytes (· ≤ offset), lineOf, ofText, List.countP_cons_of_pos (by simp),
    Nat.add_sub_cancel]

/-- The search for the style of a text and the scan for its breaks meet the same break first. -/
theorem style_ofText (t : Text) : (ofText t).style = (scan 0 t.bytes).head?.map (·.2) :=
  read?_dropWhile 0 t.bytes

theorem style_ofText_eq_none_iff : (ofText t).style = none ↔ (ofText t).lineCount = 1 := by
  rw [style_ofText, Option.map_eq_none_iff, List.head?_eq_none_iff, lineCount, ofText,
    List.length_cons, List.length_map, Nat.add_eq_right, List.length_eq_zero_iff]

theorem style_ofText_eq_some_iff : (ofText t).style = some b ↔
    ∃ start, (ofText t).starts[1]? = some start ∧ b.EndsAt t.bytes start := by
  have hsecond : (ofText t).starts[1]? = (scan 0 t.bytes).head?.map (·.1) := by
    rw [ofText, List.getElem?_cons_succ, List.getElem?_map, List.head?_eq_getElem?]
  rw [style_ofText, hsecond]
  cases hhead : (scan 0 t.bytes).head? with
  | none => simp
  | some first =>
    obtain ⟨stop, hstop, hends⟩ := mem_scan_iff.1 (List.mem_of_head? hhead)
    rw [Nat.zero_add] at hstop
    subst hstop
    refine ⟨fun h => ⟨_, rfl, Option.some.inj h ▸ hends⟩, ?_⟩
    rintro ⟨start, hstart, hb⟩
    cases hstart
    exact congrArg some (hends.unique hb)

/-- The lines of a text start at zero and behind its breaks, which what stands around them tells:
so they are counted by the breaks, the line of an offset by the breaks that end up to there, and
the style of a text is the break in front of its second line. -/
theorem starts_eq_ends_of_breaks (t : Text) :
    (ofText t).starts.Pairwise (· < ·) ∧
      (∀ offset, offset ∈ (ofText t).starts ↔ offset = 0 ∨
        0 < offset ∧ (t.bytes[offset - 1]? = some lineFeed ∨
          t.bytes[offset - 1]? = some carriageReturn ∧ t.bytes[offset]? ≠ some lineFeed)) ∧
      (ofText t).lineCount = 1 + {x : Nat × LineBreak | x.2.EndsAt t.bytes x.1}.ncard ∧
      (∀ offset, offset ≤ t.size → ∃ p, (ofText t).positionAt offset = .ok p ∧
        p.line = {x : Nat × LineBreak | x.2.EndsAt t.bytes x.1 ∧ x.1 ≤ offset}.ncard) ∧
      ((ofText t).style = none ↔ (ofText t).lineCount = 1) ∧
      ∀ b, (ofText t).style = some b ↔
        ∃ start, (ofText t).starts[1]? = some start ∧ b.EndsAt t.bytes start := by
  refine ⟨(inOrder_ofText t).sorted, fun offset => ?_, lineCount_ofText t, fun offset hle => ?_,
    style_ofText_eq_none_iff, fun b => style_ofText_eq_some_iff⟩
  · rw [mem_starts_ofText, exists_endsAt_iff]
  · exact ⟨_, if_neg (Nat.not_lt_of_le hle), lineOf_ofText t offset⟩

/-- Two carriage returns and a line feed are two breaks, of which the second is a pair. -/
theorem starts_eq_ends_of_breaks_mixed :
    let t : Text := ['a', '\r', '\r', '\n', 'b']
    (3 ∉ (ofText t).starts ∧ 4 ∈ (ofText t).starts) ∧ 3 ≤ t.size ∧
      {x : Nat × LineBreak | x.2.EndsAt t.bytes x.1}.ncard = 2 ∧
      {x : Nat × LineBreak | x.2.EndsAt t.bytes x.1 ∧ x.1 ≤ 3}.ncard = 1 ∧
      cr.EndsAt t.bytes 2 := by
  intro t
  obtain ⟨-, hmem, hcount, hline, -, hstyle⟩ := starts_eq_ends_of_breaks t
  have htable : ofText t = ⟨[0, 2, 4], 5, some .cr⟩ := by decide +kernel
  have hle : 3 ≤ t.size := by decide
  refine ⟨⟨mt (hmem 3).1 (by decide), (hmem 4).2 (by decide)⟩, hle, ?_, ?_, ?_⟩
  · rw [htable] at hcount
    exact Nat.add_left_cancel (hcount.symm.trans rfl)
  · obtain ⟨p, hp, hpline⟩ := hline 3 hle
    rw [htable] at hp
    cases hp
    exact hpline.symm
  · obtain ⟨start, hstart, hends⟩ := (hstyle cr).1 (htable ▸ rfl)
    rw [htable] at hstart
    cases hstart
    exact hends

end LineTable

end BoundTemplate
