import BoundTemplate.Proofs.Markup.Attribute
import BoundTemplate.Proofs.Markup.BareAngle

/-!
# What the attributes of a tag account for

The attributes that are read from some bytes stand one behind the other, each written as a name
or as a name, an equals sign and a value. Nothing else stands there but the white space, slashes
and equals signs that are passed over, whatever the bytes are.
-/

namespace BoundTemplate

/-! ### Bytes by their places -/

section

variable {all part : List UInt8} {b : UInt8} {p : UInt8 → Prop}

/-- Every byte of a span has a property. -/
def Between (all : List UInt8) (s : Span) (p : UInt8 → Prop) : Prop :=
  ∀ i, s.start ≤ i → i < s.stop → ∃ b, all[i]? = some b ∧ p b

/-- Some bytes stand at a place of others. -/
def StandsAt (all : List UInt8) (place : Nat) (part : List UInt8) : Prop := part <+: all.drop place

namespace StandsAt

variable {place : Nat} {others : List UInt8}

theorem head (h : StandsAt all place (b :: others)) : all[place]? = some b := by
  obtain ⟨back, hback⟩ := h
  rw [← List.head?_drop, ← hback]
  rfl

/-- What stands behind a part of some bytes that stand at a place. -/
theorem right (h : StandsAt all place (part ++ others)) :
    StandsAt all (place + part.length) others := by
  obtain ⟨back, hback⟩ := h
  refine ⟨back, ?_⟩
  rw [← List.drop_drop, ← hback, List.append_assoc, List.drop_left]

theorem tail (h : StandsAt all place (b :: others)) : StandsAt all (place + 1) others := by
  rw [← List.singleton_append] at h
  exact h.right

theorem drop (h : StandsAt all place part) {n : Nat} (hn : n ≤ part.length) :
    StandsAt all (place + n) (part.drop n) := by
  rw [← List.take_append_drop n part] at h
  have hright := h.right
  rwa [List.length_take_of_le hn] at hright

theorem dropWhile (h : StandsAt all place part) (q : UInt8 → Bool) :
    StandsAt all (place + (part.takeWhile q).length) (part.dropWhile q) := by
  rw [← List.takeWhile_append_dropWhile (p := q) (l := part)] at h
  exact h.right

theorem between (h : StandsAt all place part) (hp : ∀ b ∈ part, p b) :
    Between all ⟨place, place + part.length⟩ p := by
  intro i hstart hstop
  dsimp only at hstart hstop
  have hi : i - place < part.length := by omega
  have hhead := h.drop (Nat.le_of_lt hi)
  rw [List.drop_eq_getElem_cons hi, Nat.add_sub_cancel' hstart] at hhead
  exact ⟨part[i - place], hhead.head, hp _ (List.getElem_mem hi)⟩

theorem between_takeWhile (h : StandsAt all place part) (q : UInt8 → Bool) :
    Between all ⟨place, place + (part.takeWhile q).length⟩ (q · = true) :=
  between ((List.takeWhile_prefix q).trans h) fun b hb => List.all_eq_true.1 List.all_takeWhile b hb

end StandsAt

theorem Between.mono {s : Span} {q : UInt8 → Prop} (h : Between all s p) (hpq : ∀ b, p b → q b) :
    Between all s q := by
  intro i hstart hstop
  obtain ⟨b, hb, hp⟩ := h i hstart hstop
  exact ⟨b, hb, hpq b hp⟩

end

namespace Quote

variable {b c : UInt8} {quote : Quote}

theorem ne_unquoted_of_ofByte? (h : ofByte? b = some quote) : quote ≠ .unquoted := by
  rintro rfl
  unfold ofByte? at h
  split at h
  · cases h
  · split at h <;> cases h

/-- A quote is written in one way. -/
theorem ofByte?_inj (hb : ofByte? b = some quote) (hc : ofByte? c = some quote) : b = c := by
  unfold ofByte? at hb hc
  grind

end Quote

namespace Markup

namespace Attribute

variable {all bytes others : List UInt8} {b : UInt8} {start : Nat}

theorem isNameByte_iff : isNameByte b = true ↔ isSpace b = false ∧ b ≠ slash ∧ b ≠ equals := by
  simp only [isNameByte, Bool.and_eq_true, Bool.not_eq_true', bne_iff_ne, and_assoc]

theorem isNameByte_eq_false_iff :
    isNameByte b = false ↔ isSpace b = true ∨ b = slash ∨ b = equals := by
  simp only [isNameByte, Bool.and_eq_false_iff, Bool.not_eq_false', bne_eq_false_iff_eq, or_assoc]

/-- What ends a value: white space, or the end of what is read, if no quotes stand around it. -/
structure Delimited (all : List UInt8) (regionStop rangeStop : Nat) (value : Span)
    (quote : Quote) : Prop where
  unquoted : quote = .unquoted →
    rangeStop = value.stop ∧ Between all value (isSpace · = false)
  quoted : quote ≠ .unquoted → ∃ sign, Quote.ofByte? sign = some quote ∧
    all[value.start - 1]? = some sign ∧ Between all value (· ≠ sign) ∧
      (value.stop = regionStop ∧ rangeStop = regionStop ∨
        all[value.stop]? = some sign ∧ rangeStop = value.stop + 1)

/-- An attribute as it is written in some bytes, up to the end of what is read. -/
structure Written (all : List UInt8) (regionStop : Nat) (a : Attribute) : Prop where
  name_start : a.name.start = a.range.start
  name_nonempty : a.name.start < a.name.stop
  name_bytes : Between all a.name fun b => isSpace b = false ∧ b ≠ slash ∧ b ≠ equals
  bare : a.value = none → a.range.stop = a.name.stop
  value : ∀ value quote, a.value = some (value, quote) →
    (∃ sign, a.name.stop ≤ sign ∧ sign < value.start ∧ all[sign]? = some equals) ∧
      value.start ≤ value.stop ∧ value.stop ≤ a.range.stop ∧
      Delimited all regionStop a.range.stop value quote

/-- The attributes that are read from a region of some bytes account for all of it. -/
structure Scans (all : List UInt8) (region : Span) (attributes : List Attribute) : Prop where
  within : ∀ a ∈ attributes, region.start ≤ a.range.start ∧ a.range.stop ≤ region.stop
  apart : attributes.Pairwise fun a a' => a.range.stop ≤ a'.range.start
  written : ∀ a ∈ attributes, a.Written all region.stop
  covers : ∀ i, region.start ≤ i → i < region.stop →
    (∃ a ∈ attributes, a.range.start ≤ i ∧ i < a.range.stop) ∨
      ∃ b, all[i]? = some b ∧ (isSpace b = true ∨ b = slash ∨ b = equals)

/-- An attribute in front of a region adds its bytes to it. -/
theorem Scans.cons {stop : Nat} {a : Attribute} {attributes : List Attribute}
    (h : Scans all ⟨a.range.stop, stop⟩ attributes) (ha : a.Written all stop)
    (hle : a.range.start ≤ a.range.stop) (hstop : a.range.stop ≤ stop) :
    Scans all ⟨a.range.start, stop⟩ (a :: attributes) := by
  refine ⟨fun a' ha' => ?_, List.pairwise_cons.2 ⟨fun a' ha' => (h.within a' ha').1, h.apart⟩,
    fun a' ha' => ?_, fun i hi hi' => ?_⟩
  · rcases List.mem_cons.1 ha' with rfl | ha'
    · exact ⟨Nat.le_refl _, hstop⟩
    · exact ⟨Nat.le_trans hle (h.within a' ha').1, (h.within a' ha').2⟩
  · rcases List.mem_cons.1 ha' with rfl | ha'
    · exact ha
    · exact h.written a' ha'
  · by_cases hin : i < a.range.stop
    · exact .inl ⟨a, List.mem_cons_self, hi, hin⟩
    · rcases h.covers i (Nat.le_of_not_lt hin) hi' with ⟨a', ha', hcovers⟩ | hother
      · exact .inl ⟨a', List.mem_cons_of_mem _ ha', hcovers⟩
      · exact .inr hother

/-- A byte in front of a region adds to it if it begins no attribute. -/
theorem Scans.pass {stop : Nat} {attributes : List Attribute}
    (h : Scans all ⟨start + 1, stop⟩ attributes) (hat : all[start]? = some b)
    (hb : isNameByte b = false) : Scans all ⟨start, stop⟩ attributes := by
  refine ⟨fun a ha => ⟨Nat.le_of_succ_le (h.within a ha).1, (h.within a ha).2⟩, h.apart, h.written,
    fun i hi hi' => ?_⟩
  rcases Nat.eq_or_lt_of_le hi with rfl | hlt
  · exact .inr ⟨b, hat, isNameByte_eq_false_iff.1 hb⟩
  · exact h.covers i hlt hi'

theorem length_takeWhile_add_dropWhile (q : UInt8 → Bool) (bytes : List UInt8) :
    (bytes.takeWhile q).length + (bytes.dropWhile q).length = bytes.length := by
  rw [← List.length_append, List.takeWhile_append_dropWhile]

theorem delimited_unquoted {place : Nat} (h : StandsAt all place bytes) (regionStop : Nat) :
    let n := (bytes.takeWhile fun b => !isSpace b).length
    Delimited all regionStop (place + n) ⟨place, place + n⟩ .unquoted := by
  refine ⟨fun _ => ⟨rfl, (h.between_takeWhile _).mono fun b hb => ?_⟩, fun hne => absurd rfl hne⟩
  simpa using hb

/-- A value behind a quote goes up to the same quote, or to the end of what is read. -/
theorem delimited_quoted {place : Nat} {sign : UInt8} {quote : Quote}
    (hsign : Quote.ofByte? sign = some quote) (h : StandsAt all place (sign :: others)) :
    let n := (others.takeWhile fun b => Quote.ofByte? b != some quote).length
    Delimited all (place + (sign :: others).length) (place + min (n + 2) (sign :: others).length)
      ⟨place + 1, place + 1 + n⟩ quote := by
  intro n
  refine ⟨fun hnone => absurd hnone (Quote.ne_unquoted_of_ofByte? hsign), fun _ =>
    ⟨sign, hsign, h.head, (h.tail.between_takeWhile _).mono fun b hb => ?_, ?_⟩⟩
  · rintro rfl
    rw [hsign, bne_self_eq_false] at hb
    cases hb
  · have hlength : n + (others.dropWhile (Quote.ofByte? · != some quote)).length = others.length :=
      length_takeWhile_add_dropWhile _ others
    have hrest := h.tail.dropWhile (Quote.ofByte? · != some quote)
    rw [List.length_cons]
    dsimp only
    cases hdrop : others.dropWhile (Quote.ofByte? · != some quote) with
    | nil =>
      rw [hdrop, List.length_nil] at hlength
      left
      omega
    | cons c rest =>
      have hsame : (Quote.ofByte? c != some quote) = false := head?_dropWhile (by rw [hdrop]; rfl)
      rw [bne_eq_false_iff_eq] at hsame
      obtain rfl := Quote.ofByte?_inj hsame hsign
      rw [hdrop] at hrest
      rw [hdrop, List.length_cons] at hlength
      exact .inr ⟨hrest.head, by omega⟩

/-- A value is read up to what ends it. -/
theorem readValue_spec {place : Nat} (h : StandsAt all place bytes) :
    let found := readValue place bytes
    place ≤ found.1.1.start ∧ found.1.1.start ≤ found.1.1.stop ∧
      found.1.1.stop ≤ place + found.2 ∧
      Delimited all (place + bytes.length) (place + found.2) found.1.1 found.1.2 := by
  unfold readValue
  split
  · next quote hquote =>
    cases bytes with
    | nil => cases hquote
    | cons sign others =>
      have hlength := length_takeWhile_add_dropWhile (Quote.ofByte? · != some quote) others
      refine ⟨Nat.le_succ _, Nat.le_add_right _ _, ?_, delimited_quoted hquote h⟩
      dsimp only
      rw [List.tail_cons, List.length_cons]
      omega
  · exact ⟨Nat.le_refl _, Nat.le_add_right _ _, Nat.le_refl _, delimited_unquoted h _⟩

/-- An attribute that is read stands as it is written. -/
theorem written_read (hb : isNameByte b = true) (h : StandsAt all start (b :: others)) :
    (read start others).Written all (start + (b :: others).length) := by
  have hname := (h.between_takeWhile isNameByte).mono fun c hc => isNameByte_iff.1 hc
  rw [List.takeWhile_cons_of_pos hb, List.length_cons, Nat.add_comm _ 1, ← Nat.add_assoc] at hname
  have hlt : start < start + 1 + (others.takeWhile isNameByte).length := by omega
  unfold read
  dsimp only
  split
  · next hsign =>
    refine ⟨rfl, hlt, hname, nofun, fun value quote hvalue => ?_⟩
    obtain ⟨tail, htail⟩ := List.head?_eq_some_iff.1 hsign
    -- The name, the blanks in front of the equals sign, the sign and the blanks behind it.
    have hequals := (h.tail.dropWhile isNameByte).dropWhile isSpace
    have hnameLength := length_takeWhile_add_dropWhile isNameByte others
    have hspaceLength := length_takeWhile_add_dropWhile isSpace (others.dropWhile isNameByte)
    rw [htail] at hequals hspaceLength hvalue ⊢
    have hgapLength := length_takeWhile_add_dropWhile isSpace tail
    have hstands := hequals.tail.dropWhile isSpace
    rw [List.length_cons] at hspaceLength ⊢
    rw [List.tail_cons] at hvalue ⊢
    have hplace : start + 1 + (others.length - (tail.dropWhile isSpace).length) =
        start + 1 + (others.takeWhile isNameByte).length +
          ((others.dropWhile isNameByte).takeWhile isSpace).length + 1 +
            (tail.takeWhile isSpace).length := by omega
    rw [← hplace] at hstands
    obtain ⟨hstart, hle, hstop, hdelimited⟩ := readValue_spec hstands
    rw [Option.some.inj hvalue] at hstart hle hstop hdelimited
    refine ⟨⟨_, Nat.le_add_right _ _, Nat.lt_of_lt_of_le ?_ hstart, hequals.head⟩, hle, hstop, ?_⟩
    · dsimp only
      omega
    · have hregion : start + 1 + (others.length - (tail.dropWhile isSpace).length) +
          (tail.dropWhile isSpace).length = start + (others.length + 1) := by omega
      rwa [hregion] at hdelimited
  · exact ⟨rfl, hlt, hname, fun _ => rfl, nofun⟩

/-- What is read from some bytes accounts for all of them. -/
theorem scans_scan (h : StandsAt all start bytes) :
    Scans all ⟨start, start + bytes.length⟩ (scan start bytes) := by
  fun_induction scan start bytes with
  | case1 start =>
    refine ⟨by simp, .nil, by simp, fun i hi hi' => ?_⟩
    exact absurd hi' (Nat.not_lt_of_le hi)
  | case2 start b others hb a ih =>
    have hwritten : a.Written all (start + (b :: others).length) := written_read hb h
    have hstop : a.range.stop ≤ start + (b :: others).length := (read_spec start b others).1
    have hstart : a.range.start = start := start_range_read start others
    have hpos : 0 < a.range.size := size_range_read_pos start others
    have hsize : a.range.stop = start + a.range.size := by
      simp only [Span.size] at hpos ⊢
      omega
    have hle : a.range.size ≤ (b :: others).length := by omega
    have hbehind := h.drop hle
    rw [← hsize] at hbehind
    have hscans := ih hbehind
    have hregion : a.range.stop + ((b :: others).drop a.range.size).length =
        start + (b :: others).length := by
      rw [List.length_drop]
      omega
    rw [hregion] at hscans
    have hcons := hscans.cons hwritten (by omega) hstop
    rwa [hstart] at hcons
  | case3 start b others hb ih =>
    have hscans := ih h.tail
    rw [Nat.add_assoc, Nat.add_comm 1] at hscans
    exact hscans.pass h.head (Bool.eq_false_iff.2 hb)

end Attribute

namespace Builder

open Markup.Attribute

variable {source : Text} {nameStop stop : Nat}

theorem attributesStop_le (source : Text) (nameStop stop : Nat) :
    attributesStop source nameStop stop ≤ stop := by
  unfold attributesStop
  split
  · exact Nat.sub_le stop 1
  · exact Nat.le_refl stop

/-- The attributes of a tag account for all of the bytes that they are read from. -/
theorem scans_attributeBytes (nameStop : Nat) (hstop : stop ≤ source.size) :
    Scans source.bytes ⟨nameStop, attributesStop source nameStop stop⟩
      (scan nameStop (attributeBytes source nameStop stop)) := by
  have hle := attributesStop_le source nameStop stop
  have hstands : StandsAt source.bytes nameStop (attributeBytes source nameStop stop) :=
    List.take_prefix _ _
  have hscans := scans_scan hstands
  rw [attributeBytes, List.length_take, List.length_drop, Text.length_bytes] at hscans
  by_cases hname : nameStop ≤ attributesStop source nameStop stop
  · have hregion : nameStop + min (attributesStop source nameStop stop - nameStop)
        (source.size - nameStop) = attributesStop source nameStop stop := by omega
    rwa [hregion, ← attributeBytes] at hscans
  · unfold attributeBytes
    rw [Nat.sub_eq_zero_of_le (Nat.le_of_not_le hname), List.take_zero, scan]
    refine ⟨by simp, .nil, by simp, fun i hi hi' => ?_⟩
    exact absurd (Nat.le_trans hi (Nat.le_of_lt hi')) hname

/-- Reading the attributes of a start tag loses nothing. Every tag that stands in a text is read,
and its attributes account for all bytes between its name and its `>`; without byte order marks
the tags that the builder reads stand in the text. Whatever else is read as a tag accounts for its
bytes as well. -/
theorem tags_account_for_their_bytes (tokenizer : Tokenizer) (source : Text) :
    (∀ (token : Token) name others range,
      token = .startTag name others ∨ token = .emptyTag name others →
      source.Holds range token.lexeme →
      ∃ tag, readTag source name.size range = .ok tag ∧
        source.bytes[range.stop - 1]? = some '>'.toUInt8 ∧
        Scans source.bytes ⟨range.start + 1 + name.size, range.stop - 1⟩ tag.attributes) ∧
      (∀ (b behind : Builder tokenizer source) token, byteOrderMark ∉ source → Reaches b →
        b.next = .ok (some (token, behind)) →
        source.Holds ⟨b.offset, behind.offset⟩ token.lexeme) ∧
      ∀ nameSize range tag, range.stop ≤ source.size → readTag source nameSize range = .ok tag →
        Scans source.bytes ⟨range.start + 1 + nameSize,
          attributesStop source (range.start + 1 + nameSize) range.stop⟩ tag.attributes := by
  have hread : ∀ nameSize range tag, range.stop ≤ source.size →
      readTag source nameSize range = .ok tag →
      Scans source.bytes ⟨range.start + 1 + nameSize,
        attributesStop source (range.start + 1 + nameSize) range.stop⟩ tag.attributes := by
    intro nameSize range tag hstop htag
    rw [eq_of_readTag htag]
    exact scans_attributeBytes _ hstop
  refine ⟨fun token name others range htoken hholds => ?_, fun b behind token mark hb hnext => ?_,
    hread⟩
  · obtain ⟨tag, htag⟩ := exists_readTag htoken hholds
    have hscans := hread _ _ _ hholds.stop_le_size htag
    obtain ⟨more, hlexeme⟩ := Token.exists_lexeme_eq htoken
    rw [hlexeme, ← List.append_assoc name, ← List.append_assoc] at hholds
    have hstop := hholds.stop_eq
    simp only [Text.size_append, show Text.size ['<'] = 1 from rfl,
      show Text.size ['>'] = 1 from rfl] at hstop
    rw [attributesStop_eq hholds (by omega)] at hscans
    exact ⟨tag, htag, getElem?_stop_of_holds hholds, hscans⟩
  · exact ((hb.laidOut mark).holds_next hnext).1

/-- Spaces around an equals sign belong to the attribute, and one that stands alone to none. -/
theorem tags_account_for_their_bytes_spaced :
    let source : Text := "<p a = \"x y\" =/ b=c>".toList
    let b := Builder.start .standard source
    ∃ tag, Reaches b ∧ b.rest = source ∧ readTag source 1 ⟨b.offset, 20⟩ = .ok tag ∧
      tag.attributes = [⟨⟨3, 12⟩, ⟨3, 4⟩, some (⟨8, 11⟩, .double)⟩,
        ⟨⟨16, 19⟩, ⟨16, 17⟩, some (⟨18, 19⟩, .unquoted)⟩] ∧
      Scans source.bytes ⟨2, 19⟩ tag.attributes := by
  intro source b
  let others : Text := " a = \"x y\" =/ b=c".toList
  let behind : Builder .standard source := ⟨0, ⟨[], 20⟩, [], [], [], by decide⟩
  obtain ⟨htag, hstands, hread⟩ := tags_account_for_their_bytes .standard source
  have hholds := hstands b behind (.startTag ['p'] others) (by decide) .start rfl
  obtain ⟨tag, hok, -, hscans⟩ := htag _ ['p'] others ⟨0, 20⟩ (.inl rfl) hholds
  have hattributes := congrArg StartTag.attributes (eq_of_readTag hok)
  have hscan : scan 2 (attributeBytes source 2 20) =
      [⟨⟨3, 12⟩, ⟨3, 4⟩, some (⟨8, 11⟩, .double)⟩,
        ⟨⟨16, 19⟩, ⟨16, 17⟩, some (⟨18, 19⟩, .unquoted)⟩] := by decide +kernel
  exact ⟨tag, .start, rfl, hok, hattributes.trans hscan, hscans⟩

end Builder

end Markup

end BoundTemplate
