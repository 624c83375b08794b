import BoundTemplate.Proofs.Markup.Attribute
import BoundTemplate.Proofs.Markup.Building

/-!
# Reading markup to the end

Without byte order marks, reading markup never fails: wherever a step looks at a part
of the text, that part lies between characters. So every text has a document, whatever
is wrong with it.
-/

namespace BoundTemplate.Markup

variable {tokenizer : Tokenizer} {source : Text}

namespace Builder

variable {b behind : Builder tokenizer source} {token : Token} {tag : StartTag}

/-- Reading goes on at any boundary. -/
theorem exists_restart {offset : Nat} (b : Builder tokenizer source)
    (h : source.isBoundary offset = true) : ∃ b', b.restart offset = .ok b' := by
  have hmin := Nat.min_eq_left (Text.le_size_of_isBoundary h)
  unfold restart
  dsimp only
  split
  · next e hcheck =>
    rw [hmin, Text.checkBoundary_eq_ok h] at hcheck
    cases hcheck
  · exact ⟨_, rfl⟩

/-- Raw text is read through its end tag. -/
theorem exists_pushRaw {name : Text} (b : Builder tokenizer source) (hname : '<' ∉ name)
    (h : tag.IsRead source) : ∃ b', b.pushRaw name tag = .ok b' := by
  obtain ⟨found, content, hends, -, -, hstop, -⟩ := RawText.exists_ends hname h.isBoundary_stop
  simp only [pushRaw, hends, bind, Except.bind]
  exact exists_restart _ hstop

/-- An element begins where a start tag is. -/
theorem exists_openElement (b : Builder tokenizer source) (h : tag.IsRead source) :
    ∃ b', b.openElement tag = .ok b' := by
  obtain ⟨name, hname⟩ := exists_holds_name h
  simp only [openElement, hname.checkedSlice_eq_ok, bind, Except.bind]
  split
  · exact ⟨_, rfl⟩
  · split
    · next hraw => exact exists_pushRaw b (RawText.not_mem_of_raw hraw) h
    · exact ⟨_, rfl⟩

/-- Every token that stands in front of a builder is added. -/
theorem exists_add {start : Nat} (h : source.Holds ⟨start, b.offset⟩ token.lexeme) :
    ∃ b', b.add token start = .ok b' := by
  unfold add
  dsimp only
  split
  · next hbare => exact exists_restart _ (Token.holds_angle hbare h).isBoundary_stop
  · cases token with
    | text first others => exact ⟨_, rfl⟩
    | comment content => exact ⟨_, rfl⟩
    | emptyTag name others =>
      obtain ⟨tag, htag⟩ := exists_readTag (.inr rfl) h
      simp only [htag]
      exact ⟨_, rfl⟩
    | startTag name others =>
      obtain ⟨tag, htag⟩ := exists_readTag (.inl rfl) h
      simp only [htag]
      exact exists_openElement _ (StartTag.isRead_of_readTag (.inl rfl) h htag).1
    | endTag name others =>
      obtain ⟨more, hlexeme⟩ := Token.exists_lexeme_endTag_eq name others
      rw [hlexeme] at h
      have hname := h.split.2.split.1.checkedSlice_eq_ok
      have hsize : Text.size ['<', '/'] = 2 := rfl
      simp only [hsize] at hname
      simp only [hname]
      exact ⟨_, rfl⟩

/-- A builder reads to the end of the text. -/
theorem exists_run (b : Builder tokenizer source) (mark : byteOrderMark ∉ source)
    (h : b.LaidOut) : ∃ b', b.run = .ok b' := by
  fun_induction Builder.run b with
  | case1 b failure hread => exact ⟨_, rfl⟩
  | case2 b hread => exact ⟨b, rfl⟩
  | case3 b token behind hread e hadd =>
    obtain ⟨b', hb'⟩ := exists_add (h.holds_next hread).1
    cases hb'.symm.trans hadd
  | case4 b token behind hread next hadd hlt hle ih => exact ih (h.add mark hread hadd)

end Builder

/-- A text without byte order marks has a document. -/
theorem Document.exists_ofText (tokenizer : Tokenizer) (mark : byteOrderMark ∉ source) :
    ∃ document, Document.ofText tokenizer source = .ok document := by
  obtain ⟨last, hlast⟩ :=
    (Builder.start tokenizer source).exists_run mark (Builder.laidOut_start mark)
  simp only [ofText, bind, Except.bind, hlast]
  exact ⟨_, rfl⟩

end BoundTemplate.Markup
