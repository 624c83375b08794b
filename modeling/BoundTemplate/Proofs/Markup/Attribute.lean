import BoundTemplate.Proofs.Markup.Layout

/-!
# Where attributes lie

Attributes are read from bytes, but the ends of a value lie between characters: in front
of it stands an ASCII character, and behind it another or the end of the tag. The
attributes of a tag follow one another, each value in its attribute.
-/

namespace BoundTemplate

namespace Text

/-- The bytes of a character of several bytes are not ASCII. -/
theorem le_toNat_ofNat {n m k : Nat} (hk : 128 ≤ k) (hm : 0 < m) (hmk : m + k ≤ 256) :
    128 ≤ (UInt8.ofNat (n % m + k)).toNat := by
  have hlt := Nat.mod_lt n hm
  rw [UInt8.toNat_ofNat', Nat.mod_eq_of_lt (by omega)]
  omega

/-- A byte of ASCII is a character of its own. -/
theorem utf8EncodeChar_eq_singleton {c : Char} {b : UInt8} (h : b ∈ String.utf8EncodeChar c)
    (hb : b.toNat < 128) : String.utf8EncodeChar c = [b] := by
  have hlong : ∀ n m k, 128 ≤ k → 0 < m → m + k ≤ 256 → b ≠ UInt8.ofNat (n % m + k) := by
    rintro n m k hk hm hmk rfl
    have hle := le_toNat_ofNat (n := n) hk hm hmk
    omega
  unfold String.utf8EncodeChar at h ⊢
  dsimp only at h ⊢
  split at h
  · next hone => rw [if_pos hone, List.mem_singleton.1 h]
  · exfalso
    split at h
    · simp only [List.mem_cons, List.not_mem_nil, or_false] at h
      rcases h with h | h <;> exact hlong _ _ _ (by decide) (by decide) (by decide) h
    · split at h
      · simp only [List.mem_cons, List.not_mem_nil, or_false] at h
        rcases h with h | h | h <;> exact hlong _ _ _ (by decide) (by decide) (by decide) h
      · simp only [List.mem_cons, List.not_mem_nil, or_false] at h
        rcases h with h | h | h | h <;> exact hlong _ _ _ (by decide) (by decide) (by decide) h

/-- A boundary of a text stays one behind a character. -/
theorem isBoundary_cons {t : Text} {n : Nat} (c : Char) (h : t.isBoundary n = true) :
    isBoundary (c :: t) (c.utf8Size + n) = true := by
  obtain ⟨front, back, rfl, rfl⟩ := isBoundary_iff.1 h
  exact isBoundary_iff.2 ⟨c :: front, back, rfl, rfl⟩

/-- A byte of ASCII stands between two boundaries. -/
theorem isBoundary_of_bytes_eq {t : Text} {front back : List UInt8} {b : UInt8}
    (h : t.bytes = front ++ b :: back) (hb : b.toNat < 128) :
    t.isBoundary front.length = true ∧ t.isBoundary (front.length + 1) = true := by
  induction t generalizing front with
  | nil => simp at h
  | cons c t ih =>
    have hsize := String.length_utf8EncodeChar c
    rw [bytes_cons, List.append_eq_append_iff] at h
    rcases h with ⟨front', rfl, ht⟩ | ⟨others, hc, hback⟩
    · obtain ⟨h₁, h₂⟩ := ih ht
      rw [List.length_append, hsize, Nat.add_assoc]
      exact ⟨isBoundary_cons c h₁, isBoundary_cons c h₂⟩
    · cases others with
      | nil =>
        rw [List.append_nil] at hc
        have hnil : Text.bytes t = [] ++ b :: back := hback.symm
        obtain ⟨h₁, h₂⟩ := ih hnil
        rw [← hc, hsize]
        exact ⟨isBoundary_cons c h₁, isBoundary_cons c h₂⟩
      | cons b' others =>
        obtain ⟨rfl, hothers⟩ := List.cons.inj hback
        have hmem : b ∈ String.utf8EncodeChar c := by
          rw [hc]
          exact List.mem_append_right _ List.mem_cons_self
        have hone := utf8EncodeChar_eq_singleton hmem hb
        rw [hone] at hc hsize
        have hfront : front = [] := by
          cases front with
          | nil => rfl
          | cons x front => simp at hc
        subst hfront
        have hstart : isBoundary (c :: t) 0 = true := isBoundary_iff.2 ⟨[], c :: t, rfl, rfl⟩
        refine ⟨hstart, ?_⟩
        have hnext := isBoundary_cons c (n := 0) (isBoundary_iff.2 ⟨[], t, rfl, rfl⟩)
        rw [← hsize] at hnext
        exact hnext

end Text

namespace Markup

namespace Attribute

/-- A value lies in some bytes that start at an offset: a byte of ASCII stands in front of it, and
another or nothing behind it. -/
def ValueIn (start : Nat) (bytes : List UInt8) (value : Span) : Prop :=
  ∃ (front : List UInt8) (sign : UInt8) (content back : List UInt8),
    bytes = front ++ sign :: (content ++ back) ∧ sign.toNat < 128 ∧
    (∀ b, back.head? = some b → b.toNat < 128) ∧
    value = ⟨start + front.length + 1, start + front.length + 1 + content.length⟩

/-- A value lies in all bytes if it does in those behind some. -/
theorem ValueIn.append {start : Nat} {bytes : List UInt8} {value : Span} (others : List UInt8)
    (h : ValueIn (start + others.length) bytes value) : ValueIn start (others ++ bytes) value := by
  obtain ⟨front, sign, content, back, rfl, hsign, hback, rfl⟩ := h
  refine ⟨others ++ front, sign, content, back, ?_, hsign, hback, ?_⟩
  · rw [List.append_assoc]
  · simp only [List.length_append, Nat.add_assoc]

theorem ValueIn.of_drop {start n : Nat} {bytes : List UInt8} {value : Span} (hn : n ≤ bytes.length)
    (h : ValueIn (start + n) (bytes.drop n) value) : ValueIn start bytes value := by
  rw [← List.take_append_drop n bytes]
  refine ValueIn.append _ ?_
  rw [List.length_take_of_le hn]
  exact h

theorem ValueIn.bounds {start : Nat} {bytes : List UInt8} {value : Span}
    (h : ValueIn start bytes value) :
    start < value.start ∧ value.start ≤ value.stop ∧ value.stop ≤ start + bytes.length := by
  obtain ⟨front, sign, content, back, rfl, -, -, rfl⟩ := h
  simp only [List.length_append, List.length_cons]
  omega

/-- A value lies between two boundaries of a text if its bytes lie in front of one. -/
theorem ValueIn.exists_holds {source : Text} {start : Nat} {front bytes back : List UInt8}
    {value : Span} (h : ValueIn start bytes value) (hsource : source.bytes = front ++ bytes ++ back)
    (hfront : front.length = start) (hstop : source.isBoundary (start + bytes.length) = true) :
    ∃ part, source.Holds value part := by
  have hle := h.bounds.2.1
  obtain ⟨front', sign, content, back', rfl, hsign, hback, rfl⟩ := h
  have hsplit : source.bytes = (front ++ front') ++ sign :: (content ++ back' ++ back) := by
    rw [hsource]
    simp only [List.append_assoc, List.cons_append]
  have hstart := (Text.isBoundary_of_bytes_eq hsplit hsign).2
  rw [List.length_append, hfront] at hstart
  refine Text.exists_holds hstart ?_ hle
  cases back' with
  | nil =>
    simpa [Nat.add_assoc, Nat.add_comm, Nat.add_left_comm] using hstop
  | cons b others =>
    have hsplit' : source.bytes =
        (front ++ (front' ++ sign :: content)) ++ b :: (others ++ back) := by
      rw [hsource]
      simp only [List.append_assoc, List.cons_append]
    have hb := (Text.isBoundary_of_bytes_eq hsplit' (hback b rfl)).1
    simp only [List.length_append, List.length_cons, hfront] at hb
    have hplace : start + front'.length + 1 + content.length =
        start + (front'.length + (content.length + 1)) := by omega
    rw [hplace]
    exact hb

theorem toNat_lt_of_isSpace {b : UInt8} (h : isSpace b = true) : b.toNat < 128 := by
  simp only [isSpace, Bool.or_eq_true, beq_iff_eq] at h
  rcases h with (((rfl | rfl) | rfl) | rfl) | rfl <;> decide

theorem toNat_lt_of_ofByte? {b : UInt8} {quote : Quote} (h : Quote.ofByte? b = some quote) :
    b.toNat < 128 := by
  unfold Quote.ofByte? at h
  split at h
  · next hb =>
    subst hb
    decide
  · split at h
    · next hb =>
      subst hb
      decide
    · cases h

/-- What stands behind the characters that are taken is not taken. -/
theorem head?_dropWhile {p : UInt8 → Bool} {bytes : List UInt8} {b : UInt8}
    (h : (bytes.dropWhile p).head? = some b) : p b = false := by
  have hnot := List.head?_dropWhile_not p bytes
  rw [h] at hnot
  simpa using hnot

/-- The value that is read behind a byte of ASCII lies in the bytes that are read for it. -/
theorem valueIn_readValue (place : Nat) (sign : UInt8) (bytes : List UInt8)
    (hsign : sign.toNat < 128) :
    let found := readValue (place + 1) bytes
    ValueIn place (sign :: bytes) found.1.1 ∧ found.1.1.stop ≤ place + 1 + found.2 ∧
      found.2 ≤ bytes.length := by
  intro found
  rcases hquote : bytes.head?.bind Quote.ofByte? with _ | quote
  · have hfound : found = readValue (place + 1) bytes := rfl
    simp only [readValue, hquote] at hfound
    have hsplit := List.takeWhile_append_dropWhile (p := fun b => !isSpace b) (l := bytes)
    have hlength := congrArg List.length hsplit
    rw [List.length_append] at hlength
    rw [hfound]
    refine ⟨⟨[], sign, bytes.takeWhile fun b => !isSpace b, bytes.dropWhile fun b => !isSpace b,
      ?_, hsign, fun b hb => ?_, ?_⟩, ?_, ?_⟩
    · rw [hsplit]
      rfl
    · have hspace := head?_dropWhile hb
      rw [Bool.not_eq_false'] at hspace
      exact toNat_lt_of_isSpace hspace
    · rfl
    · exact Nat.le_refl _
    · simp only
      omega
  · cases bytes with
    | nil => cases hquote
    | cons b others =>
      have hfound : found = readValue (place + 1) (b :: others) := rfl
      simp only [readValue, hquote, List.tail_cons] at hfound
      have hsplit := List.takeWhile_append_dropWhile
        (p := fun b => Quote.ofByte? b != some quote) (l := others)
      have hlength := congrArg List.length hsplit
      rw [List.length_append] at hlength
      rw [hfound]
      refine ⟨⟨[sign], b, others.takeWhile fun b => Quote.ofByte? b != some quote,
        others.dropWhile fun b => Quote.ofByte? b != some quote, ?_,
        toNat_lt_of_ofByte? hquote, fun b hb => ?_, ?_⟩, ?_, ?_⟩
      · rw [hsplit]
        rfl
      · have hsame := head?_dropWhile hb
        rw [bne_eq_false_iff_eq] at hsame
        exact toNat_lt_of_ofByte? hsame
      · rfl
      · simp only [List.length_cons]
        omega
      · exact Nat.min_le_right _ _

/-- Some bytes of ASCII end with one. -/
theorem exists_concat_of_ascii (b : UInt8) (bytes : List UInt8) (hb : b.toNat < 128)
    (h : ∀ c ∈ bytes, c.toNat < 128) :
    ∃ front sign, b :: bytes = front ++ [sign] ∧ sign.toNat < 128 := by
  rcases List.eq_nil_or_concat bytes with rfl | ⟨front, sign, rfl⟩
  · exact ⟨[], b, rfl, hb⟩
  · exact ⟨b :: front, sign, by simp, h sign (by simp)⟩

/-- What is read of an attribute lies in the bytes that it is read from, and its value lies in the
attribute. -/
theorem read_spec (start : Nat) (b : UInt8) (others : List UInt8) :
    (read start others).range.stop ≤ start + (b :: others).length ∧
      ∀ value quote, (read start others).value = some (value, quote) →
        ValueIn start (b :: others) value ∧ value.stop ≤ (read start others).range.stop := by
  have hname := List.takeWhile_append_dropWhile (p := isNameByte) (l := others)
  have hspace := List.takeWhile_append_dropWhile (p := isSpace) (l := others.dropWhile isNameByte)
  unfold read
  dsimp only
  split
  · next hsign =>
    obtain ⟨tail, htail⟩ : ∃ tail,
        (others.dropWhile isNameByte).dropWhile isSpace = equals :: tail := by
      rcases h : (others.dropWhile isNameByte).dropWhile isSpace with _ | ⟨sign, tail⟩
      · rw [h] at hsign
        cases hsign
      · rw [h] at hsign
        cases hsign
        exact ⟨tail, rfl⟩
    have hgap := List.takeWhile_append_dropWhile (p := isSpace) (l := tail)
    obtain ⟨gap, sign, hconcat, hascii⟩ := exists_concat_of_ascii equals
      (tail.takeWhile isSpace) (by decide) fun c hc =>
        toNat_lt_of_isSpace (List.all_eq_true.1 List.all_takeWhile c hc)
    let front := others.takeWhile isNameByte ++
      ((others.dropWhile isNameByte).takeWhile isSpace ++ gap)
    let rest := tail.dropWhile isSpace
    have hothers : others = front ++ sign :: rest := by
      have hsigned : equals :: tail = gap ++ sign :: rest := by
        rw [← hgap, ← List.cons_append, hconcat, List.append_assoc]
        rfl
      rw [htail, hsigned] at hspace
      simp only [front, List.append_assoc, hspace, hname]
    have hlength : others.length = front.length + (rest.length + 1) := by
      rw [hothers, List.length_append, List.length_cons]
    rw [htail, List.tail_cons]
    have hplace : start + 1 + (others.length - rest.length) = start + (front.length + 1) + 1 := by
      omega
    obtain ⟨hin, hle, hsize⟩ := valueIn_readValue (start + (front.length + 1)) sign rest hascii
    rw [show tail.dropWhile isSpace = rest from rfl, hplace]
    refine ⟨?_, ?_⟩
    · simp only [List.length_cons]
      omega
    · intro value quote hvalue
      have hsame := congrArg Prod.fst (Option.some.inj hvalue)
      simp only at hsame
      rw [← hsame, hothers, ← List.cons_append]
      exact ⟨ValueIn.append (b :: front) hin, hle⟩
  · refine ⟨?_, by simp⟩
    have hle := congrArg List.length hname
    rw [List.length_append] at hle
    simp only [List.length_cons]
    omega

/-- The attributes in some bytes lie in them one behind the other, each value in its attribute. -/
theorem scan_spec (start : Nat) (bytes : List UInt8) :
    (∀ a ∈ scan start bytes, start ≤ a.range.start ∧ a.range.stop ≤ start + bytes.length ∧
      ∀ value quote, a.value = some (value, quote) → ValueIn start bytes value ∧
        a.range.start < value.start ∧ value.stop ≤ a.range.stop) ∧
      (scan start bytes).Pairwise fun a a' => a.range.stop ≤ a'.range.start := by
  fun_induction scan start bytes with
  | case1 start => simp
  | case2 start b others hb a ih =>
    obtain ⟨hstop, hvalue⟩ := read_spec start b others
    have hstart : a.range.start = start := start_range_read start others
    have hpos := size_range_read_pos start others
    have hsize : a.range.stop = start + a.range.size := by
      change 0 < a.range.size at hpos
      simp only [Span.size] at hpos ⊢
      omega
    change a.range.stop ≤ start + (b :: others).length at hstop
    have hrest : start + (b :: others).length =
        a.range.stop + ((b :: others).drop a.range.size).length := by
      rw [List.length_drop]
      omega
    obtain ⟨hmem, hsorted⟩ := ih
    refine ⟨fun a' ha' => ?_, List.pairwise_cons.2 ⟨fun a' ha' => (hmem a' ha').1, hsorted⟩⟩
    rcases List.mem_cons.1 ha' with rfl | ha'
    · refine ⟨Nat.le_of_eq hstart.symm, hstop, fun value quote h => ?_⟩
      obtain ⟨hin, hle⟩ := hvalue value quote h
      refine ⟨hin, ?_, hle⟩
      rw [hstart]
      exact hin.bounds.1
    · obtain ⟨h₁, h₂, h₃⟩ := hmem a' ha'
      refine ⟨by omega, by omega, fun value quote h => ?_⟩
      obtain ⟨hin, hlt, hle⟩ := h₃ value quote h
      refine ⟨?_, hlt, hle⟩
      rw [hsize] at hin
      exact hin.of_drop (by omega)
  | case3 start b others hb ih =>
    obtain ⟨hmem, hsorted⟩ := ih
    refine ⟨fun a ha => ?_, hsorted⟩
    obtain ⟨h₁, h₂, h₃⟩ := hmem a ha
    rw [List.length_cons]
    refine ⟨by omega, by omega, fun value quote h => ?_⟩
    obtain ⟨hin, hlt, hle⟩ := h₃ value quote h
    exact ⟨hin.append [b], hlt, hle⟩

/-! ### Names -/

section

variable {source : Text} {front bytes back : List UInt8}

/-- Bytes that are taken up to a byte of ASCII end between two characters. -/
theorem isBoundary_takeWhile {p : UInt8 → Bool} (hascii : ∀ b, p b = false → b.toNat < 128)
    (hsource : source.bytes = front ++ bytes ++ back)
    (hstop : source.isBoundary (front.length + bytes.length) = true) :
    source.isBoundary (front.length + (bytes.takeWhile p).length) = true := by
  have hsplit := List.takeWhile_append_dropWhile (p := p) (l := bytes)
  rcases hrest : bytes.dropWhile p with _ | ⟨b, rest⟩
  · rw [hrest, List.append_nil] at hsplit
    rw [hsplit]
    exact hstop
  · have hb : p b = false := head?_dropWhile (by rw [hrest, List.head?_cons])
    have hbytes : source.bytes = (front ++ bytes.takeWhile p) ++ b :: (rest ++ back) := by
      rw [hrest] at hsplit
      rw [hsource]
      simp only [List.append_assoc, ← List.cons_append]
      rw [← List.append_assoc (bytes.takeWhile p), hsplit]
    rw [← List.length_append]
    exact (Text.isBoundary_of_bytes_eq hbytes (hascii b hb)).1

theorem toNat_lt_of_isNameByte {b : UInt8} (h : isNameByte b = false) : b.toNat < 128 := by
  simp only [isNameByte, Bool.and_eq_false_iff, Bool.not_eq_false', bne_eq_false_iff_eq] at h
  rcases h with (h | rfl) | rfl
  · exact toNat_lt_of_isSpace h
  · decide
  · decide

/-- A value and its quotes end between two characters. -/
theorem isBoundary_readValue (place : Nat) (hsource : source.bytes = front ++ bytes ++ back)
    (hstop : source.isBoundary (front.length + bytes.length) = true) :
    source.isBoundary (front.length + (readValue place bytes).2) = true := by
  unfold readValue
  split
  · next quote hquote =>
    cases bytes with
    | nil => cases hquote
    | cons b others =>
      dsimp only [List.tail_cons]
      have hsplit := List.takeWhile_append_dropWhile
        (p := fun b => Quote.ofByte? b != some quote) (l := others)
      rcases hrest : others.dropWhile (fun b => Quote.ofByte? b != some quote) with _ | ⟨c, rest⟩
      · rw [hrest, List.append_nil] at hsplit
        rw [hsplit, Nat.min_eq_right (by simp)]
        exact hstop
      · have hc : (Quote.ofByte? c != some quote) = false := head?_dropWhile (by rw [hrest]; rfl)
        rw [bne_eq_false_iff_eq] at hc
        let taken := others.takeWhile fun b => Quote.ofByte? b != some quote
        have hothers : others = taken ++ c :: rest := by rw [← hrest, hsplit]
        have hbytes : source.bytes = (front ++ b :: taken) ++ c :: (rest ++ back) := by
          rw [hsource, hothers]
          simp only [List.append_assoc, List.cons_append]
        have hclosed := (Text.isBoundary_of_bytes_eq hbytes (toNat_lt_of_ofByte? hc)).2
        have hle : taken.length + 2 ≤ (b :: others).length := by
          rw [hothers]
          simp only [List.length_cons, List.length_append]
          omega
        rw [Nat.min_eq_left hle]
        rw [List.length_append, List.length_cons, Nat.add_assoc] at hclosed
        exact hclosed
  · refine isBoundary_takeWhile (fun b hb => ?_) hsource hstop
    exact toNat_lt_of_isSpace (by simpa using hb)

/-- The name of an attribute ends between two characters, and so does the attribute. -/
theorem isBoundary_read {b : UInt8} {others : List UInt8} {start : Nat}
    (hname : isNameByte b = true) (hsource : source.bytes = front ++ (b :: others) ++ back)
    (hfront : front.length = start)
    (hstop : source.isBoundary (start + (b :: others).length) = true) :
    source.isBoundary (read start others).name.stop = true ∧
      source.isBoundary (read start others).range.stop = true := by
  subst hfront
  have hnameStop := isBoundary_takeWhile (p := isNameByte) (fun c hc => toNat_lt_of_isNameByte hc)
    hsource hstop
  rw [List.takeWhile_cons_of_pos hname, List.length_cons, Nat.add_comm _ 1, ← Nat.add_assoc]
    at hnameStop
  unfold read
  dsimp only
  split
  · refine ⟨hnameStop, ?_⟩
    let value := ((others.dropWhile isNameByte).dropWhile isSpace).tail.dropWhile isSpace
    have hsuffix : value <:+ others := by
      refine List.IsSuffix.trans (List.dropWhile_suffix _) (List.IsSuffix.trans
        (List.tail_suffix _) (List.IsSuffix.trans (List.dropWhile_suffix _) ?_))
      exact List.dropWhile_suffix _
    obtain ⟨before, hbefore⟩ := hsuffix
    have hlength := congrArg List.length hbefore
    rw [List.length_append] at hlength
    have hbytes : source.bytes = (front ++ b :: before) ++ value ++ back := by
      rw [hsource, ← hbefore]
      simp only [List.append_assoc, List.cons_append]
    have hplace : (front ++ b :: before).length =
        front.length + 1 + (others.length - value.length) := by
      rw [List.length_append, List.length_cons]
      omega
    have hvalueStop : source.isBoundary ((front ++ b :: before).length + value.length) = true := by
      rw [hplace]
      rw [List.length_cons] at hstop
      have hsame : front.length + 1 + (others.length - value.length) + value.length =
          front.length + (others.length + 1) := by omega
      rw [hsame]
      exact hstop
    have hread := isBoundary_readValue
      (front.length + 1 + (others.length - value.length)) hbytes hvalueStop
    rw [hplace] at hread
    exact hread
  · exact ⟨hnameStop, hnameStop⟩

end

/-- An attribute starts with its name. -/
theorem name_read_bounds (start : Nat) (others : List UInt8) :
    (read start others).name.start = start ∧
      (read start others).name.start ≤ (read start others).name.stop := by
  unfold read
  dsimp only
  split
  · exact ⟨rfl, Nat.le_trans (Nat.le_succ _) (Nat.le_add_right _ _)⟩
  · exact ⟨rfl, Nat.le_trans (Nat.le_succ _) (Nat.le_add_right _ _)⟩

/-- The attributes in some bytes between two boundaries have names in the text. -/
theorem exists_holds_name_scan {source : Text} {bytes back : List UInt8} {start : Nat}
    {front : List UInt8} (hsource : source.bytes = front ++ bytes ++ back)
    (hfront : front.length = start) (hstart : source.isBoundary start = true)
    (hstop : source.isBoundary (start + bytes.length) = true) :
    ∀ a ∈ scan start bytes, ∃ part, source.Holds a.name part := by
  induction start, bytes using scan.induct generalizing front with
  | case1 start => simp [scan]
  | case2 start b others hb a =>
    rename_i ih
    obtain ⟨hname, hrange⟩ := isBoundary_read hb hsource hfront hstop
    obtain ⟨hle, -⟩ := read_spec start b others
    have hpos := size_range_read_pos start others
    have hrangeStart := start_range_read start others
    change 0 < a.range.size at hpos
    change a.range.stop ≤ start + (b :: others).length at hle
    change a.range.start = start at hrangeStart
    have hsize : a.range.stop = start + a.range.size := by
      simp only [Span.size] at hpos ⊢
      omega
    have hdrop := List.take_append_drop a.range.size (b :: others)
    have hlength : ((b :: others).take a.range.size).length = a.range.size :=
      List.length_take_of_le (by omega)
    intro a' ha'
    rw [scan, if_pos hb] at ha'
    rcases List.mem_cons.1 ha' with rfl | ha'
    · obtain ⟨hnameStart, hle'⟩ := name_read_bounds start others
      refine Text.exists_holds ?_ hname hle'
      rw [hnameStart]
      exact hstart
    · refine @ih (front ++ (b :: others).take a.range.size) ?_ ?_ hrange ?_ a' ha'
      · rw [hsource]
        simp only [List.append_assoc]
        rw [← List.append_assoc (List.take _ _), hdrop]
      · rw [List.length_append, hlength, hfront, hsize]
      · rw [List.length_drop]
        have hend : a.range.stop + ((b :: others).length - a.range.size) =
            start + (b :: others).length := by omega
        rw [hend]
        exact hstop
  | case3 start b others hb ih =>
    rw [scan, if_neg hb]
    have hascii := toNat_lt_of_isNameByte (Bool.eq_false_iff.2 hb)
    have hbytes : source.bytes = front ++ b :: (others ++ back) := by
      rw [hsource]
      simp only [List.append_assoc, List.cons_append]
    have hnext := (Text.isBoundary_of_bytes_eq hbytes hascii).2
    rw [hfront] at hnext
    refine @ih (front ++ [b]) ?_ ?_ hnext ?_
    · rw [hbytes]
      simp only [List.append_assoc, List.cons_append, List.nil_append]
    · rw [List.length_append, hfront]
      rfl
    · rw [List.length_cons] at hstop
      have hend : start + 1 + others.length = start + (others.length + 1) := by omega
      rw [hend]
      exact hstop

end Attribute

/-! ### Tags that stand in a text -/

namespace Token

variable {token : Token} {name others : Text}

/-- The name of a start tag is a beginning of what the tag has behind its `<`. -/
theorem exists_lexeme_eq (h : token = .startTag name others ∨ token = .emptyTag name others) :
    ∃ more, token.lexeme = ['<'] ++ (name ++ (more ++ ['>'])) := by
  rcases h with rfl | rfl
  · exact ⟨others, by simp [lexeme]⟩
  · exact ⟨others ++ ['/'], by simp [lexeme]⟩

/-- The name of an end tag is a beginning of what the tag has behind its slash. -/
theorem exists_lexeme_endTag_eq (name others : Text) :
    ∃ more, (endTag name others).lexeme = ['<', '/'] ++ (name ++ more) :=
  ⟨others ++ ['>'], by simp [lexeme]⟩

end Token

namespace Builder

variable {source : Text} {range : Span} {nameSize : Nat} {tag : StartTag}

/-- The attributes of a tag end in front of its `>`. -/
theorem isBoundary_attributesStop {front : Text} (nameStop : Nat)
    (h : source.Holds range (front ++ ['>'])) :
    source.isBoundary (attributesStop source nameStop range.stop) = true := by
  obtain ⟨start, stop⟩ := range
  unfold attributesStop
  split
  · have hsplit := h.split
    have hstop := hsplit.2.stop_eq
    have hfront := hsplit.1.isBoundary_stop
    have hsize : Text.size ['>'] = 1 := rfl
    simp only at hstop hfront
    have hplace : stop - 1 = start + front.size := by omega
    rw [hplace]
    exact hfront
  · exact h.isBoundary_stop

/-- The last byte of a tag is its `>`. -/
theorem getElem?_stop_of_holds {front : Text} (h : source.Holds range (front ++ ['>'])) :
    source.bytes[range.stop - 1]? = some '>'.toUInt8 := by
  obtain ⟨before, behind, rfl, rfl⟩ := h
  have hone : Text.size ['>'] = 1 := rfl
  have hsize : before.size + Text.size (front ++ ['>']) - 1 =
      (before.bytes ++ front.bytes).length := by
    rw [List.length_append, Text.length_bytes, Text.length_bytes, Text.size_append, hone]
    omega
  have hbytes : (before ++ (front ++ ['>']) ++ behind).bytes =
      before.bytes ++ front.bytes ++ '>'.toUInt8 :: behind.bytes := by
    simp only [Text.bytes_append, List.append_assoc]
    rfl
  simp only [hsize, hbytes, List.getElem?_append_right (Nat.le_refl _), Nat.sub_self,
    List.getElem?_cons_zero]

/-- The attributes of a tag are read up to its `>`. -/
theorem attributesStop_eq {front : Text} {nameStop : Nat}
    (h : source.Holds range (front ++ ['>'])) (hlt : nameStop < range.stop) :
    attributesStop source nameStop range.stop = range.stop - 1 := by
  rw [attributesStop, getElem?_stop_of_holds h, if_pos]
  simp [hlt]

/-- The bytes of a tag that its attributes are read from. -/
def attributeBytes (source : Text) (nameStop stop : Nat) : List UInt8 :=
  (source.bytes.drop nameStop).take (attributesStop source nameStop stop - nameStop)

/-- What is read of a tag is its name and its attributes. -/
theorem eq_of_readTag (h : readTag source nameSize range = .ok tag) :
    tag = ⟨range, ⟨range.start + 1, range.start + 1 + nameSize⟩,
      Attribute.scan (range.start + 1 + nameSize)
        (attributeBytes source (range.start + 1 + nameSize) range.stop)⟩ := by
  obtain ⟨u, -, h⟩ := exists_of_bind_eq_ok h
  cases h
  rfl

/-- The attributes of a tag are read from bytes that lie between two characters, behind its name and
in front of its `>`. -/
structure ReadsBetween (source : Text) (range : Span) (nameSize : Nat)
    (front bytes back : List UInt8) : Prop where
  eq : source.bytes = front ++ bytes ++ back
  bytes_eq : bytes = attributeBytes source (range.start + 1 + nameSize) range.stop
  start_eq : front.length = range.start + 1 + nameSize
  stop_eq : front.length + bytes.length =
    attributesStop source (range.start + 1 + nameSize) range.stop
  stop_lt : front.length + bytes.length < range.stop
  isBoundary_start : source.isBoundary front.length = true
  isBoundary_stop : source.isBoundary (front.length + bytes.length) = true

theorem exists_readsBetween {token : Token} {name others : Text}
    (htoken : token = .startTag name others ∨ token = .emptyTag name others)
    (holds : source.Holds range token.lexeme) :
    ∃ front bytes back, ReadsBetween source range name.size front bytes back := by
  obtain ⟨more, hlexeme⟩ := Token.exists_lexeme_eq htoken
  have hname : source.isBoundary (range.start + 1 + name.size) = true := by
    have hsplit := holds
    rw [hlexeme] at hsplit
    exact hsplit.split.2.split.1.isBoundary_stop
  let start := range.start + 1 + name.size
  have hsize := holds.stop_eq
  have hone : Text.size ['>'] = 1 := rfl
  have hopen : Text.size ['<'] = 1 := rfl
  simp only [hlexeme, Text.size_append, hone, hopen] at hsize
  have holds' : source.Holds range (['<'] ++ name ++ more ++ ['>']) := by
    simpa only [hlexeme, List.append_assoc] using holds
  have hstop : attributesStop source start range.stop = range.stop - 1 :=
    attributesStop_eq holds' (by omega)
  have hboundary := isBoundary_attributesStop start holds'
  have hle := holds.stop_le_size
  have hlength : (attributeBytes source start range.stop).length = range.stop - 1 - start := by
    rw [attributeBytes, hstop, List.length_take, List.length_drop, Text.length_bytes]
    omega
  have hfront : (source.bytes.take start).length = start := by
    rw [List.length_take, Text.length_bytes]
    omega
  have hplace : start + (range.stop - 1 - start) = range.stop - 1 := by omega
  rw [hstop] at hboundary
  refine ⟨source.bytes.take start, attributeBytes source start range.stop,
    (source.bytes.drop start).drop (range.stop - 1 - start), ?_, rfl, hfront, ?_, ?_, ?_, ?_⟩
  · rw [attributeBytes, hstop, List.append_assoc, List.take_append_drop, List.take_append_drop]
  · rw [hfront, hlength, hplace, hstop]
  · rw [hfront, hlength, hplace]
    omega
  · rwa [hfront]
  · rwa [hfront, hlength, hplace]

/-- What is accepted of each attribute is accepted of all. -/
theorem forM_eq_ok {attributes : List Attribute} {check : Attribute → Except LocationError Unit}
    (h : ∀ a ∈ attributes, check a = .ok ()) : attributes.forM check = .ok () := by
  induction attributes with
  | nil => rfl
  | cons a others ih =>
    obtain ⟨ha, hothers⟩ := List.forall_mem_cons.1 h
    rw [List.forM, ha]
    exact ih hothers

/-- The parts of a start tag are read. -/
theorem exists_readTag {token : Token} {name others : Text}
    (htoken : token = .startTag name others ∨ token = .emptyTag name others)
    (h : source.Holds range token.lexeme) : ∃ tag, readTag source name.size range = .ok tag := by
  obtain ⟨front, bytes, back, hreads⟩ := exists_readsBetween htoken h
  have hvalues := (Attribute.scan_spec front.length bytes).1
  have hcheck : (Attribute.scan front.length bytes).forM
      (checkValue source (front.length + bytes.length)) = .ok () := by
    refine forM_eq_ok fun a ha => ?_
    obtain ⟨-, -, hvalue⟩ := hvalues a ha
    unfold checkValue
    split
    · rfl
    · rfl
    · next value quote _ hv =>
      obtain ⟨part, hpart⟩ :=
        (hvalue value quote hv).1.exists_holds hreads.eq rfl hreads.isBoundary_stop
      rw [Text.checkBoundary_eq_ok hpart.isBoundary_start,
        Text.checkBoundary_eq_ok hreads.isBoundary_stop]
      rfl
  rw [hreads.stop_eq, hreads.start_eq, hreads.bytes_eq] at hcheck
  simp only [attributeBytes] at hcheck
  simp only [readTag, hcheck]
  exact ⟨_, rfl⟩

/-- The name of a start tag stands behind its `<`. -/
theorem holds_name_of_readTag {token : Token} {name others : Text}
    (htoken : token = .startTag name others ∨ token = .emptyTag name others)
    (h : source.Holds range token.lexeme) (hread : readTag source name.size range = .ok tag) :
    source.Holds tag.name name := by
  obtain ⟨more, hlexeme⟩ := Token.exists_lexeme_eq htoken
  rw [hlexeme] at h
  have hname := h.split.2.split.1
  have hspan := congrArg StartTag.name (eq_of_readTag hread)
  rw [hspan]
  exact hname

theorem exists_holds_name (h : tag.IsRead source) : ∃ name, source.Holds tag.name name := by
  obtain ⟨token, name, others, htoken, holds, hread⟩ := h
  exact ⟨name, holds_name_of_readTag htoken holds hread⟩

end Builder

namespace StartTag

variable {source : Text} {tag : StartTag}

/-- The attributes of a start tag are read from the bytes behind its name. -/
theorem IsRead.exists_readsBetween (h : tag.IsRead source) :
    ∃ nameSize front bytes back,
      Builder.ReadsBetween source tag.range nameSize front bytes back ∧
      tag.attributes = Attribute.scan front.length bytes := by
  obtain ⟨token, name, others, htoken, holds, hread⟩ := h
  obtain ⟨front, bytes, back, hreads⟩ := Builder.exists_readsBetween htoken holds
  refine ⟨name.size, front, bytes, back, hreads, ?_⟩
  rw [hreads.start_eq, hreads.bytes_eq]
  exact congrArg StartTag.attributes (Builder.eq_of_readTag hread)

/-- The attributes of a start tag lie in it one behind the other, and each value stands in its
attribute. -/
theorem IsRead.attributes_spec (h : tag.IsRead source) :
    (∀ a ∈ tag.attributes, tag.range.start < a.range.start ∧ a.range.stop < tag.range.stop ∧
      ∀ value quote, a.value = some (value, quote) → (∃ part, source.Holds value part) ∧
        a.range.start < value.start ∧ value.stop ≤ a.range.stop) ∧
      tag.attributes.Pairwise fun a a' => a.range.stop ≤ a'.range.start := by
  obtain ⟨nameSize, front, bytes, back, hreads, hattributes⟩ := h.exists_readsBetween
  obtain ⟨hmem, hsorted⟩ := Attribute.scan_spec front.length bytes
  have hstart := hreads.start_eq
  have hstop := hreads.stop_lt
  rw [hattributes]
  refine ⟨fun a ha => ?_, hsorted⟩
  obtain ⟨h₁, h₂, h₃⟩ := hmem a ha
  refine ⟨by omega, by omega, fun value quote hv => ?_⟩
  obtain ⟨hin, hlt, hle⟩ := h₃ value quote hv
  exact ⟨hin.exists_holds hreads.eq rfl hreads.isBoundary_stop, hlt, hle⟩

/-- The names of the attributes of a start tag stand in the text. -/
theorem IsRead.exists_holds_attributeName (h : tag.IsRead source) :
    ∀ a ∈ tag.attributes, ∃ name, source.Holds a.name name := by
  obtain ⟨nameSize, front, bytes, back, hreads, hattributes⟩ := h.exists_readsBetween
  rw [hattributes]
  exact Attribute.exists_holds_name_scan hreads.eq rfl hreads.isBoundary_start
    hreads.isBoundary_stop

end StartTag

end Markup

end BoundTemplate
