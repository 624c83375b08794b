import BoundTemplate.Script.Cursor

/-!
# Blanks and comments of a script

Between two tokens stand white space, line ends and comments. Skipping them says
whether a line ended on the way. A comment that does not end reaches the end of
the script.
-/

namespace BoundTemplate.Script

/-- What the skipped characters belong to. -/
inductive BlankMode where
  /-- White space and line ends. -/
  | space
  /-- A comment up to the end of a line. -/
  | line
  /-- A bracketed comment that starts at an offset. -/
  | block (start : Nat)
  deriving DecidableEq, Repr

/-- Where blanks end. -/
structure BlankEnd where
  /-- The number of characters skipped. -/
  length : Nat
  /-- Whether a line ended among them. -/
  newLine : Bool
  /-- The start of a comment that does not end. -/
  open? : Option Nat
  deriving DecidableEq, Repr

/-- The end of the blanks at the head of a text that starts at an offset. -/
def blankEnd (mode : BlankMode) (length : Nat) (newLine : Bool) (offset : Nat) (t : Text) :
    BlankEnd :=
  match t with
  | [] =>
    match mode with
    | .block start => ⟨length, newLine, some start⟩
    | _ => ⟨length, newLine, none⟩
  | c :: t =>
    let behind := offset + c.utf8Size
    match mode with
    | .line =>
      if isLineEnd c then blankEnd .space (length + 1) true behind t
      else blankEnd .line (length + 1) newLine behind t
    | .block start =>
      if c == '*' && t.head? == some '/' then
        blankEnd .space (length + 2) newLine (offset + 2) t.tail
      else blankEnd (.block start) (length + 1) (newLine || isLineEnd c) behind t
    | .space =>
      if c == '/' && t.head? == some '/' then
        blankEnd .line (length + 2) newLine (offset + 2) t.tail
      else if c == '/' && t.head? == some '*' then
        blankEnd (.block offset) (length + 2) newLine (offset + 2) t.tail
      else if isLineEnd c then blankEnd .space (length + 1) true behind t
      else if isSpace c then blankEnd .space (length + 1) newLine behind t
      else ⟨length, newLine, none⟩
termination_by t.length
decreasing_by all_goals (simp only [List.length_tail, List.length_cons]; omega)

/-- White space, line ends and comments in front of a rest. A comment up to the end of its line ends
in front of a line end or at the end of the script, a bracketed one at its first end mark. -/
inductive Blanks : Text → Text → Prop
  | nil (rest : Text) : Blanks [] rest
  | space {c : Char} {t rest : Text} (blank : isSpace c = true ∨ isLineEnd c = true)
      (more : Blanks t rest) : Blanks (c :: t) rest
  | line {content t rest : Text} (inside : ∀ c ∈ content, isLineEnd c = false)
      (ends : ∀ c, (t ++ rest).head? = some c → isLineEnd c = true) (more : Blanks t rest) :
      Blanks ('/' :: '/' :: (content ++ t)) rest
  | block {content t rest : Text} (inside : ¬['*', '/'] <:+: content ++ ['*'])
      (more : Blanks t rest) : Blanks ('/' :: '*' :: (content ++ '*' :: '/' :: t)) rest

namespace BlankEnd

/-- Blanks end behind a text that was skipped after `length` characters, or are followed there by a
comment that does not end. -/
def Reaches (e : BlankEnd) (length offset : Nat) (skipped : Text) : Prop :=
  match e.open? with
  | none => e.length = length + skipped.length
  | some start => start = offset + skipped.size

/-- What is skipped at the head of a text is made of blanks; in a comment, what is left of it comes
first. -/
def Skips (e : BlankEnd) (length offset : Nat) (t : Text) : BlankMode → Prop
  | .space => ∃ gap rest, t = gap ++ rest ∧ Blanks gap rest ∧ e.Reaches length offset gap
  | .line => ∃ content gap rest, t = content ++ (gap ++ rest) ∧
      (∀ c ∈ content, isLineEnd c = false) ∧
      (∀ c, (gap ++ rest).head? = some c → isLineEnd c = true) ∧ Blanks gap rest ∧
      e.Reaches length offset (content ++ gap)
  | .block start => e.open? = some start ∨
      ∃ content gap rest, t = content ++ '*' :: '/' :: (gap ++ rest) ∧
        ¬['*', '/'] <:+: content ++ ['*'] ∧ Blanks gap rest ∧
        e.Reaches length offset (content ++ '*' :: '/' :: gap)

/-- What is skipped is counted from where skipping started. -/
theorem Reaches.prepend {e : BlankEnd} {length offset : Nat} {skipped : Text} (front : Text)
    (h : e.Reaches (length + front.length) (offset + front.size) skipped) :
    e.Reaches length offset (front ++ skipped) := by
  unfold Reaches at h ⊢
  split at h
  · rw [List.length_append, ← Nat.add_assoc]
    exact h
  · rw [Text.size_append, ← Nat.add_assoc]
    exact h

end BlankEnd

/-- The first two characters of a text. -/
theorem eq_cons_cons {a b c : Char} {t : Text} (h : (c == a && t.head? == some b) = true) :
    c = a ∧ t = b :: t.tail := by
  rw [Bool.and_eq_true, beq_iff_eq, beq_iff_eq] at h
  obtain ⟨back, rfl⟩ := List.head?_eq_some_iff.1 h.2
  exact ⟨h.1, rfl⟩

/-- A character of a comment ends it only together with the one behind it. -/
theorem not_infix_cons {c : Char} {content back : Text}
    (hc : ¬(c == '*' && (content ++ '*' :: '/' :: back).head? == some '/') = true)
    (h : ¬['*', '/'] <:+: content ++ ['*']) : ¬['*', '/'] <:+: c :: content ++ ['*'] := by
  intro hinfix
  rcases List.infix_cons_iff.1 hinfix with hprefix | hinfix
  · obtain ⟨hstar, hprefix⟩ := List.cons_prefix_cons.1 hprefix
    refine hc ?_
    cases content with
    | nil => exact absurd (List.cons_prefix_cons.1 hprefix).1 (by decide)
    | cons d content =>
      rw [← hstar, ← (List.cons_prefix_cons.1 hprefix).1]
      rfl
  · exact h hinfix

/-- What is skipped from the end of blanks on is made of blanks. -/
theorem skips_blankEnd (mode : BlankMode) (length : Nat) (newLine : Bool) (offset : Nat)
    (t : Text) : (blankEnd mode length newLine offset t).Skips length offset t mode := by
  fun_induction blankEnd mode length newLine offset t with
  | case1 => exact .inl rfl
  | case2 mode length newLine offset hmode =>
    cases mode with
    | space => exact ⟨[], [], rfl, .nil [], rfl⟩
    | line => exact ⟨[], [], [], rfl, by simp, by simp, .nil [], rfl⟩
    | block start => exact absurd rfl (hmode start)
  | case3 length newLine offset c t behind hc ih =>
    obtain ⟨gap, rest, rfl, hblanks, hreaches⟩ := ih
    refine ⟨[], c :: gap, rest, rfl, by simp, ?_, .space (.inr hc) hblanks,
      hreaches.prepend [c]⟩
    rintro _ ⟨⟩
    exact hc
  | case4 length newLine offset c t behind hc ih =>
    obtain ⟨content, gap, rest, rfl, hinside, hends, hblanks, hreaches⟩ := ih
    refine ⟨c :: content, gap, rest, rfl, ?_, hends, hblanks, hreaches.prepend [c]⟩
    intro x hx
    rcases List.mem_cons.1 hx with rfl | hx
    · exact Bool.of_not_eq_true hc
    · exact hinside x hx
  | case5 length newLine offset c t start hclose ih =>
    obtain ⟨rfl, ht⟩ := eq_cons_cons hclose
    obtain ⟨gap, rest, htail, hblanks, hreaches⟩ := ih
    refine .inr ⟨[], gap, rest, ?_, by decide, hblanks, hreaches.prepend ['*', '/']⟩
    rw [ht, htail]
    rfl
  | case6 length newLine offset c t behind start hclose ih =>
    rcases ih with hopen | ⟨content, gap, rest, rfl, hinside, hblanks, hreaches⟩
    · exact .inl hopen
    · exact .inr ⟨c :: content, gap, rest, rfl, not_infix_cons hclose hinside, hblanks,
        hreaches.prepend [c]⟩
  | case7 length newLine offset c t hc ih =>
    obtain ⟨rfl, ht⟩ := eq_cons_cons hc
    obtain ⟨content, gap, rest, htail, hinside, hends, hblanks, hreaches⟩ := ih
    refine ⟨'/' :: '/' :: (content ++ gap), rest, ?_, .line hinside hends hblanks,
      hreaches.prepend ['/', '/']⟩
    rw [ht, htail, ← List.append_assoc]
    rfl
  | case8 length newLine offset c t hline hc ih =>
    obtain ⟨rfl, ht⟩ := eq_cons_cons hc
    rcases ih with hopen | ⟨content, gap, rest, htail, hinside, hblanks, hreaches⟩
    · refine ⟨[], '/' :: t, rfl, .nil _, ?_⟩
      rw [BlankEnd.Reaches, hopen]
      rfl
    · refine ⟨'/' :: '*' :: (content ++ '*' :: '/' :: gap), rest, ?_, .block hinside hblanks,
        hreaches.prepend ['/', '*']⟩
      rw [ht, htail]
      simp only [List.cons_append, List.append_assoc]
  | case9 length newLine offset c t behind hline hblock hc ih =>
    obtain ⟨gap, rest, rfl, hblanks, hreaches⟩ := ih
    exact ⟨c :: gap, rest, rfl, .space (.inr hc) hblanks, hreaches.prepend [c]⟩
  | case10 length newLine offset c t behind hline hblock hc hspace ih =>
    obtain ⟨gap, rest, rfl, hblanks, hreaches⟩ := ih
    exact ⟨c :: gap, rest, rfl, .space (.inl hspace) hblanks, hreaches.prepend [c]⟩
  | case11 length newLine offset c t hline hblock hc hspace =>
    exact ⟨[], c :: t, rfl, .nil _, rfl⟩

/-- Between two offsets of a script stand only blanks. -/
def Apart (script : Text) (start stop : Nat) : Prop :=
  ∃ front gap rest : Text, script = front ++ gap ++ rest ∧ front.size = start ∧
    Text.size (front ++ gap) = stop ∧ Blanks gap rest

/-- The end of the blanks at a cursor. -/
def Cursor.blankEnd {script : Text} (c : Cursor script) : BlankEnd :=
  Script.blankEnd .space 0 false c.offset c.rest

end BoundTemplate.Script
