import Mathlib.Order.Bounds.Defs
import BoundTemplate.Proofs.Markup.Closing
import BoundTemplate.Proofs.Markup.Scanning

/-!
# Where raw text ends

An end tag may be told by the bytes at an offset, with no regard to characters: two signs, the
bytes of a name with their ASCII letters in either case, and behind them a byte that ends a name
or none. As UTF-8 keeps the bytes of ASCII apart from all others, such bytes stand between
characters, and the content of raw text ends at the first offset that has them.
-/

namespace BoundTemplate

namespace Text

/-! ### Letters by their bytes -/

/-- The byte of a capital letter of ASCII becomes that of the small one. -/
def lowerByte (b : UInt8) : UInt8 := if 65 ≤ b ∧ b ≤ 90 then b + 32 else b

/-- What holds of the characters of ASCII is checked one by one. -/
theorem forall_ascii {p : Char → Prop} (h : ∀ n : Fin 128, p (Char.ofNat n)) :
    ∀ c : Char, c.toNat < 128 → p c := fun c hc => by
  simpa only [Char.ofNat_toNat] using h ⟨c.toNat, hc⟩

/-- A character of several bytes has none of ASCII. -/
theorem le_toNat_of_mem_utf8EncodeChar {c : Char} {b : UInt8} (hc : 128 ≤ c.toNat)
    (h : b ∈ String.utf8EncodeChar c) : 128 ≤ b.toNat := by
  refine Nat.le_of_not_lt fun hb => ?_
  have hone := congrArg List.length (utf8EncodeChar_eq_singleton h hb)
  rw [String.length_utf8EncodeChar, List.length_singleton, Char.utf8Size_eq_one_iff,
    UInt32.le_iff_toNat_le] at hone
  exact absurd (Nat.le_trans hc hone) (by decide)

theorem lowerByte_of_le {b : UInt8} (h : 128 ≤ b.toNat) : lowerByte b = b := by
  rw [lowerByte, if_neg]
  rintro ⟨-, hle⟩
  exact absurd (Nat.le_trans h (UInt8.le_iff_toNat_le.1 hle)) (by decide)

theorem toLower_of_le {c : Char} (h : 128 ≤ c.toNat) : c.toLower = c := by
  unfold Char.toLower
  rw [dif_neg]
  rintro ⟨-, hle⟩
  exact absurd (Nat.le_trans h (UInt32.le_iff_toNat_le.1 hle)) (by decide)

/-- A letter becomes small with its byte. -/
theorem utf8EncodeChar_toLower (c : Char) :
    String.utf8EncodeChar c.toLower = (String.utf8EncodeChar c).map lowerByte := by
  rcases Nat.lt_or_ge c.toNat 128 with hlt | hge
  · have hall : ∀ c : Char, c.toNat < 128 →
        String.utf8EncodeChar c.toLower = (String.utf8EncodeChar c).map lowerByte :=
      forall_ascii (by decide +kernel)
    exact hall c hlt
  · have hsame : ∀ b ∈ String.utf8EncodeChar c, lowerByte b = id b := fun b hb =>
      lowerByte_of_le (le_toNat_of_mem_utf8EncodeChar hge hb)
    rw [toLower_of_le hge, List.map_congr_left hsame, List.map_id]

/-- The letters of a text become small with their bytes. -/
theorem bytes_lower (t : Text) : t.lower.bytes = t.bytes.map lowerByte := by
  induction t with
  | nil => rfl
  | cons c t ih =>
    rw [lower_cons, bytes_cons, bytes_cons, List.map_append, utf8EncodeChar_toLower, ih]

/-- A text begins with another if its bytes begin with those of the other. -/
theorem prefix_of_bytes {s t : Text} (h : s.bytes <+: t.bytes) : s <+: t := by
  obtain ⟨back, hback⟩ := h
  apply List.isPrefix_of_utf8Encode_append_eq_utf8Encode back.toByteArray
  rw [List.utf8Encode, List.utf8Encode, ← List.toByteArray_append]
  exact congrArg List.toByteArray hback

/-- A character of ASCII is in a text if its byte is one of the bytes of the text. -/
theorem mem_of_mem_bytes {c : Char} {b : UInt8} {t : Text} (hc : String.utf8EncodeChar c = [b])
    (hb : b.toNat < 128) (h : b ∈ t.bytes) : c ∈ t := by
  obtain ⟨d, hd, hmem⟩ := List.mem_flatMap.1 h
  have hsame : Text.bytes [c] = Text.bytes [d] := by
    rw [bytes_cons, bytes_cons, hc, utf8EncodeChar_eq_singleton hmem hb]
  have hbytes : Text.bytes [c] <+: Text.bytes [d] := hsame ▸ List.prefix_rfl
  obtain ⟨rfl, -⟩ := List.cons_prefix_cons.1 (prefix_of_bytes hbytes)
  exact hd

end Text

namespace Markup

namespace RawText

/-! ### End tags by their bytes -/

/-- The byte of a `>`. -/
def angle : UInt8 := 62

/-- The bytes that may follow the name in an end tag. -/
def endsNameByte (b : UInt8) : Bool := b == angle || b == Attribute.slash || Attribute.isSpace b

/-- An end tag of a name stands at an offset: the bytes of its two signs and of the name, the case
of ASCII letters apart, and behind them one that ends the name, or the end of the text. -/
def EndsAt (source name : Text) (offset : Nat) : Prop :=
  ∃ written : List UInt8, StandsAt source.bytes offset written ∧
    written.map Text.lowerByte = (Text.bytes ('<' :: '/' :: name)).map Text.lowerByte ∧
    source.bytes[offset + written.length]?.all endsNameByte = true

variable {source name t : Text} {start offset : Nat}

/-- What ends a name is ASCII. -/
theorem toNat_lt_of_endsNameByte {b : UInt8} (h : endsNameByte b = true) : b.toNat < 128 := by
  simp only [endsNameByte, Bool.or_eq_true, beq_iff_eq] at h
  rcases h with (rfl | rfl) | h
  · decide
  · decide
  · exact Attribute.toNat_lt_of_isSpace h

theorem toNat_lt_of_endsName {c : Char} (h : endsName c = true) : c.toNat < 128 := by
  simp only [endsName, Bool.or_eq_true, beq_iff_eq] at h
  rcases h with (((((rfl | rfl) | rfl) | rfl) | rfl) | rfl) | rfl <;> decide

/-- A character ends a name if its first byte does. -/
theorem endsNameByte_of_head? {c : Char} {b : UInt8}
    (h : (String.utf8EncodeChar c).head? = some b) : endsNameByte b = endsName c := by
  rcases Nat.lt_or_ge c.toNat 128 with hlt | hge
  · have hall : ∀ c : Char, c.toNat < 128 →
        (String.utf8EncodeChar c).head?.all (endsNameByte · == endsName c) = true :=
      Text.forall_ascii (by decide +kernel)
    have hc := hall c hlt
    rw [h] at hc
    exact beq_iff_eq.1 hc
  · have hb := Text.le_toNat_of_mem_utf8EncodeChar hge (List.mem_of_head? h)
    have hbyte : endsNameByte b = false :=
      Bool.eq_false_iff.2 fun hends => Nat.not_lt.2 hb (toNat_lt_of_endsNameByte hends)
    have hchar : endsName c = false :=
      Bool.eq_false_iff.2 fun hends => Nat.not_lt.2 hge (toNat_lt_of_endsName hends)
    rw [hbyte, hchar]

/-- What follows a name is told by its first byte. -/
theorem all_head?_bytes (t : Text) : t.bytes.head?.all endsNameByte = t.head?.all endsName := by
  cases t with
  | nil => rfl
  | cons c t =>
    obtain ⟨b, others, hc⟩ := List.exists_cons_of_ne_nil (String.utf8EncodeChar_ne_nil (c := c))
    have hhead : (String.utf8EncodeChar c).head? = some b := by rw [hc, List.head?_cons]
    rw [Text.bytes_cons, hc]
    exact endsNameByte_of_head? hhead

/-- Only the byte of an angle is its own small letter. -/
theorem eq_of_lowerByte_eq {b : UInt8} (h : Text.lowerByte b = 60) : b = 60 := by
  unfold Text.lowerByte at h
  split at h
  · next hb =>
    have hnat := congrArg UInt8.toNat h
    rw [UInt8.toNat_add] at hnat
    simp only [UInt8.le_iff_toNat_le, UInt8.reduceToNat] at hb hnat
    omega
  · exact h

/-- The byte behind a part of a text is the first of what follows. -/
theorem getElem?_bytes_behind (front t : Text) :
    (Text.bytes (front ++ t))[front.size]? = t.bytes.head? := by
  rw [Text.bytes_append, ← Text.length_bytes, ← List.head?_drop, List.drop_left]

/-- Names that differ in the case of letters have as many bytes. -/
theorem size_eq_of_sameLetters {written : Text} (h : written.sameLetters name = true) :
    written.size = name.size := by
  have hlower : written.lower = name.lower := beq_iff_eq.1 h
  rw [← Text.size_lower, hlower, Text.size_lower]

/-- The first sign of an end tag is a byte of ASCII, so the tag starts between characters. -/
theorem EndsAt.isBoundary (h : EndsAt source name offset) : source.isBoundary offset = true := by
  obtain ⟨written, ⟨back, hback⟩, hlower, -⟩ := h
  obtain ⟨b, others, rfl, hb, -⟩ := List.map_eq_cons_iff.1 hlower
  obtain rfl := eq_of_lowerByte_eq hb
  have hlt : offset < source.bytes.length := by
    refine Nat.lt_of_not_le fun hle => ?_
    rw [List.drop_of_length_le hle] at hback
    cases hback
  have hbytes := (List.take_append_drop offset source.bytes).symm
  rw [← hback] at hbytes
  have hfront := (Text.isBoundary_of_bytes_eq hbytes (by decide)).1
  rwa [List.length_take_of_le (Nat.le_of_lt hlt)] at hfront

/-- Where the bytes of an end tag stand, its characters do. -/
theorem EndsAt.startsWithEnd {front tag : Text} (h : EndsAt (front ++ tag) name front.size) :
    StartsWithEnd name tag := by
  obtain ⟨written, ⟨back, hback⟩, hlower, hends⟩ := h
  rw [Text.bytes_append, ← Text.length_bytes, List.drop_left] at hback
  have hneedle : written.map Text.lowerByte = (needle name).bytes := by
    rw [hlower, ← Text.bytes_lower]
    rfl
  have hprefix : needle name <+: tag.lower := by
    refine Text.prefix_of_bytes ?_
    rw [Text.bytes_lower, ← hneedle, ← hback, List.map_append]
    exact List.prefix_append _ _
  obtain ⟨behind, hbehind⟩ := hprefix
  obtain ⟨start, rest, rfl, hstart, rfl⟩ := Text.exists_of_lower_eq_append hbehind.symm
  have hsize : written.length = start.size := by
    have hlength := congrArg List.length hneedle
    rwa [List.length_map, Text.length_bytes, ← hstart, Text.size_lower] at hlength
  rw [hsize, ← Text.size_append, ← List.append_assoc, getElem?_bytes_behind, all_head?_bytes]
    at hends
  exact starts_lower_iff.1 ⟨rest.lower, hbehind.symm, (all_endsName_lower rest).trans hends⟩

/-- Where the characters of an end tag stand, its bytes do. -/
theorem StartsWithEnd.endsAt {tag : Text} (front : Text) (h : StartsWithEnd name tag) :
    EndsAt (front ++ tag) name front.size := by
  obtain ⟨written, rest, rfl, hsame, hends⟩ := h
  have hlower : written.lower = name.lower := beq_iff_eq.1 hsame
  refine ⟨Text.bytes ('<' :: '/' :: written), ?_, ?_, ?_⟩
  · rw [StandsAt, Text.bytes_append, ← Text.length_bytes, List.drop_left]
    exact ⟨rest.bytes, (Text.bytes_append ('<' :: '/' :: written) rest).symm⟩
  · rw [← Text.bytes_lower, ← Text.bytes_lower]
    simp only [Text.lower_cons, hlower]
  · have hbehind := getElem?_bytes_behind (front ++ '<' :: '/' :: written) rest
    rw [List.append_assoc, Text.size_append] at hbehind
    rw [Text.length_bytes]
    exact (congrArg (Option.all endsNameByte) hbehind).trans ((all_head?_bytes rest).trans hends)

/-- An end tag that its bytes tell stands between characters. -/
theorem endsAt_iff : EndsAt source name offset ↔
    ∃ front tag : Text, source = front ++ tag ∧ front.size = offset ∧ StartsWithEnd name tag := by
  constructor
  · intro h
    obtain ⟨front, tag, rfl, rfl⟩ := Text.isBoundary_iff.1 h.isBoundary
    exact ⟨front, tag, rfl, rfl, h.startsWithEnd⟩
  · rintro ⟨front, tag, rfl, rfl, h⟩
    exact h.endsAt front

/-- An end tag whose name stops at an offset goes through the first `>` behind the name, or through
the end of the text. -/
def GoesThrough (source : Text) (nameStop stop : Nat) : Prop :=
  (nameStop < stop ∧ source.bytes[stop - 1]? = some angle ∧
      Between source.bytes ⟨nameStop, stop - 1⟩ (· ≠ angle)) ∨
    stop = source.size ∧ Between source.bytes ⟨nameStop, stop⟩ (· ≠ angle)

/-- What an end tag goes through behind its name is told by bytes. -/
theorem Through.goesThrough {more back : Text} (front : Text) (h : Through more back) :
    GoesThrough (front ++ (more ++ back)) front.size (front.size + more.size) := by
  have hangle {u : Text} (hu : '>' ∉ u) : ∀ b ∈ u.bytes, b ≠ angle := by
    rintro b hb rfl
    exact hu (Text.mem_of_mem_bytes rfl (by decide) hb)
  have hstands (u back : Text) :
      StandsAt (Text.bytes (front ++ (u ++ back))) front.size u.bytes := by
    rw [StandsAt, Text.bytes_append, ← Text.length_bytes, List.drop_left, Text.bytes_append]
    exact List.prefix_append _ _
  rcases h with ⟨inner, hinner, rfl⟩ | ⟨hnone, rfl⟩
  · have hthrough := hstands (inner ++ ['>']) back
    rw [Text.bytes_append inner] at hthrough
    have hbetween := StandsAt.between ((List.prefix_append _ _).trans hthrough) (hangle hinner)
    have hbyte := StandsAt.head (b := angle) hthrough.right
    rw [Text.length_bytes] at hbetween hbyte
    have hstop : front.size + Text.size (inner ++ ['>']) - 1 = front.size + inner.size := by
      rw [Text.size_append]
      exact Nat.add_sub_cancel _ 1
    refine .inl ⟨Nat.lt_add_of_pos_right ?_, by rwa [hstop], by rwa [hstop]⟩
    exact Text.size_pos (List.append_ne_nil_of_right_ne_nil _ (List.cons_ne_nil _ _))
  · have hbetween := (hstands more []).between (hangle hnone)
    rw [Text.length_bytes] at hbetween
    exact .inr ⟨by rw [List.append_nil, Text.size_append], hbetween⟩

/-! ### The first end tag -/

/-- An end tag at an offset stands in what is left of the text behind an earlier one. -/
theorem EndsAt.exists_rest {front rest : Text} (h : EndsAt (front ++ rest) name offset)
    (hle : front.size ≤ offset) : ∃ before tag : Text, rest = before ++ tag ∧
      offset = front.size + before.size ∧ StartsWithEnd name tag := by
  obtain ⟨front', tag, hsource, rfl, hstart⟩ := endsAt_iff.1 h
  obtain ⟨before, rfl, hrest⟩ := Text.exists_between hsource hle
  exact ⟨before, tag, hrest, Text.size_append front before, hstart⟩

namespace FirstEnd

variable {content written more back : Text}

/-- The end tag that is found is the first that its bytes tell. -/
theorem isLeast (front : Text) (h : FirstEnd name content written more back) :
    let rest := content ++ ('<' :: '/' :: (written ++ (more ++ back)))
    IsLeast {offset | front.size ≤ offset ∧ EndsAt (front ++ rest) name offset}
      (front.size + content.size) := by
  intro rest
  constructor
  · exact ⟨Nat.le_add_right _ _, endsAt_iff.2 ⟨front ++ content, _, (List.append_assoc ..).symm,
      Text.size_append .., written, more ++ back, rfl, h.same, h.ends⟩⟩
  · rintro offset ⟨hle, hends⟩
    obtain ⟨before, tag, hrest, rfl, htag⟩ := hends.exists_rest hle
    exact Nat.add_le_add_left (h.first before tag hrest htag) _

/-- The end tag that is found goes through the first `>` behind its name. -/
theorem goesThrough (front : Text) (h : FirstEnd name content written more back) :
    let source := front ++ (content ++ ('<' :: '/' :: (written ++ (more ++ back))))
    let start := front.size + content.size
    GoesThrough source (start + 2 + name.size)
        (start + Text.size ('<' :: '/' :: (written ++ more))) ∧
      source.isBoundary (start + Text.size ('<' :: '/' :: (written ++ more))) = true := by
  intro source start
  have hsigns (t : Text) : Text.size ('<' :: '/' :: t) = 2 + t.size := by
    rw [Text.size_cons, Text.size_cons, ← Nat.add_assoc]
    rfl
  have hthrough := h.through.goesThrough (front ++ (content ++ '<' :: '/' :: written))
  have hsource : front ++ (content ++ '<' :: '/' :: written) ++ (more ++ back) = source := by
    simp [source]
  have hname : Text.size (front ++ (content ++ '<' :: '/' :: written)) = start + 2 + name.size := by
    rw [Text.size_append, Text.size_append, hsigns, size_eq_of_sameLetters h.same]
    omega
  have hstop : start + Text.size ('<' :: '/' :: (written ++ more)) =
      start + 2 + name.size + more.size := by
    rw [hsigns, Text.size_append, size_eq_of_sameLetters h.same]
    omega
  rw [hsource, hname, ← hstop] at hthrough
  refine ⟨hthrough, Text.isBoundary_iff.2
    ⟨front ++ (content ++ ('<' :: '/' :: (written ++ more))), back, by simp [source], ?_⟩⟩
  rw [Text.size_append, Text.size_append, ← Nat.add_assoc]

end FirstEnd

/-- An element with raw text is added with its content as one text, if it has any, and reading goes
on where its end tag stops. -/
theorem pushRaw_eq {tokenizer : Tokenizer} {contentStop stop : Nat}
    (hends : ends source name start = .ok (contentStop, stop)) (b : Builder tokenizer source)
    {tag : StartTag} (hstart : tag.range.stop = start) :
    b.pushRaw name tag = (b.push (tag.element
      (if start < contentStop then [.text ⟨start, contentStop⟩] else []) contentStop stop)).restart
        stop := by
  subst hstart
  rw [Builder.pushRaw, hends]
  rfl

/-- From any boundary, the content of raw text goes on to the first offset at which an end tag of
the name stands, and the end tag through the first `>` behind its name, or to the end of the text;
where no end tag stands, both stop with the text. -/
theorem ends_at_first_end_tag (raw : isOneOf rawNames name = true)
    (h : source.isBoundary start = true) :
    ∃ contentStop stop, ends source name start = .ok (contentStop, stop) ∧
      start ≤ contentStop ∧ contentStop ≤ stop ∧ stop ≤ source.size ∧
      source.isBoundary contentStop = true ∧ source.isBoundary stop = true ∧
      ((∃ offset, start ≤ offset ∧ EndsAt source name offset) →
        IsLeast {offset | start ≤ offset ∧ EndsAt source name offset} contentStop ∧
          GoesThrough source (contentStop + 2 + name.size) stop) ∧
      ((∀ offset, start ≤ offset → ¬EndsAt source name offset) →
        contentStop = source.size ∧ stop = source.size) ∧
      ∀ (tokenizer : Tokenizer) (b : Builder tokenizer source) (tag : StartTag),
        tag.range.stop = start →
        b.pushRaw name tag = (b.push (tag.element
          (if start < contentStop then [.text ⟨start, contentStop⟩] else [])
            contentStop stop)).restart stop := by
  obtain ⟨front, rest, rfl, rfl⟩ := Text.isBoundary_iff.1 h
  rcases ends_spec front rest (not_mem_of_raw raw) with
    ⟨content, written, more, back, rfl, hfirst, hends⟩ | ⟨hnone, hends⟩
  · have hleast := hfirst.isLeast front
    obtain ⟨hthrough, hstop⟩ := hfirst.goesThrough front
    have hcontent := Text.isBoundary_iff.2 ⟨front ++ content,
      '<' :: '/' :: (written ++ (more ++ back)), (List.append_assoc ..).symm, Text.size_append ..⟩
    exact ⟨_, _, hends, Nat.le_add_right _ _, Nat.le_add_right _ _,
      Text.le_size_of_isBoundary hstop, hcontent, hstop, fun _ => ⟨hleast, hthrough⟩,
      fun hnone => absurd hleast.1.2 (hnone _ hleast.1.1),
      fun _ b _ hstart => pushRaw_eq hends b hstart⟩
  · have hsize := Text.isBoundary_size (front ++ rest)
    have hle := Text.le_size_of_isBoundary h
    refine ⟨_, _, hends, hle, Nat.le_refl _, Nat.le_refl _, hsize, hsize, ?_, fun _ => ⟨rfl, rfl⟩,
      fun _ b _ hstart => pushRaw_eq hends b hstart⟩
    rintro ⟨offset, hoffset, htag⟩
    obtain ⟨before, tag, hrest, -, hstart⟩ := htag.exists_rest hoffset
    exact absurd hstart (hnone before tag hrest)

/-- An end tag of a longer name ends no raw text, and capitals do, with what stands in the tag. -/
theorem ends_at_first_end_tag_behind_longer :
    let source : Text := "<script>é</scripty></SCRIPT x>é".toList
    let name : Text := "script".toList
    source.isBoundary 8 = true ∧ ends source name 8 = .ok (20, 31) ∧
      IsLeast {offset | 8 ≤ offset ∧ EndsAt source name offset} 20 ∧ GoesThrough source 28 31 := by
  intro source name
  have hboundary : source.isBoundary 8 = true := by decide
  have htag : EndsAt source name 20 :=
    ⟨Text.bytes "</SCRIPT".toList, List.isPrefixOf_iff_prefix.1 (by decide), by decide, by decide⟩
  have hfound : (ends source name 8).toOption = some (20, 31) := by decide +kernel
  obtain ⟨contentStop, stop, hends, -, -, -, -, -, hsome, -⟩ :=
    @ends_at_first_end_tag source name 8 (by decide) hboundary
  rw [hends] at hfound
  cases hfound
  exact ⟨hboundary, hends, hsome ⟨20, by decide, htag⟩⟩

end RawText

end Markup

end BoundTemplate
