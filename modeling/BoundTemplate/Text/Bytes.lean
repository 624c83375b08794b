/-!
# Texts measured in UTF-8 bytes

A text is the list of its characters. Every offset into a text counts bytes of
its UTF-8 form, so this module holds the byte measure, the byte view, and the
two halves into which an offset divides a text. An offset inside a character
divides the text in front of that character.
-/

namespace BoundTemplate

/-- A text is the list of its characters. -/
abbrev Text := List Char

namespace Text

/-- The number of bytes of the UTF-8 form of a text. -/
def size : Text → Nat
  | [] => 0
  | c :: t => c.utf8Size + size t

@[simp] theorem size_nil : size [] = 0 := rfl

@[simp] theorem size_cons (c : Char) (t : Text) : size (c :: t) = c.utf8Size + size t := rfl

/-- Sizes add up over concatenation. -/
@[simp] theorem size_append (s t : Text) : size (s ++ t) = size s + size t := by
  induction s with
  | nil => simp
  | cons c s ih => simp [ih, Nat.add_assoc]

/-- Only the empty text has no bytes. -/
theorem size_eq_zero {t : Text} : size t = 0 ↔ t = [] := by
  cases t with
  | nil => simp
  | cons c t =>
    have := c.utf8Size_pos
    simp only [size_cons, reduceCtorEq, iff_false]
    omega

/-- The UTF-8 form of a text. -/
def bytes (t : Text) : List UInt8 := t.flatMap String.utf8EncodeChar

@[simp] theorem bytes_nil : bytes [] = [] := rfl

@[simp] theorem bytes_cons (c : Char) (t : Text) :
    bytes (c :: t) = String.utf8EncodeChar c ++ bytes t := rfl

/-- The UTF-8 form of a concatenation is the concatenation of the forms. -/
@[simp] theorem bytes_append (s t : Text) : bytes (s ++ t) = bytes s ++ bytes t := by
  simp [bytes]

/-- The size of a text is the length of its UTF-8 form. -/
@[simp] theorem length_bytes (t : Text) : (bytes t).length = size t := by
  induction t with
  | nil => rfl
  | cons c t ih => simp [ih]

/-- The longest beginning of a text that has at most `n` bytes. -/
def takeBytes : Nat → Text → Text
  | _, [] => []
  | n, c :: t => if c.utf8Size ≤ n then c :: takeBytes (n - c.utf8Size) t else []

/-- What follows the longest beginning of a text that has at most `n` bytes. -/
def dropBytes : Nat → Text → Text
  | _, [] => []
  | n, c :: t => if c.utf8Size ≤ n then dropBytes (n - c.utf8Size) t else c :: t

/-- The two halves make up the text. -/
@[simp] theorem takeBytes_append_dropBytes (n : Nat) (t : Text) :
    takeBytes n t ++ dropBytes n t = t := by
  induction t generalizing n with
  | nil => rfl
  | cons c t ih =>
    simp only [takeBytes, dropBytes]
    split <;> simp [ih]

/-- The first half fits into the bytes asked for. -/
theorem size_takeBytes_le (n : Nat) (t : Text) : size (takeBytes n t) ≤ n := by
  induction t generalizing n with
  | nil => simp [takeBytes]
  | cons c t ih =>
    simp only [takeBytes]
    split
    · have := ih (n - c.utf8Size)
      simp only [size_cons]
      omega
    · simp

/-- An offset right after a beginning of the text divides it there. -/
@[simp] theorem takeBytes_size_append (s t : Text) : takeBytes (size s) (s ++ t) = s := by
  induction s with
  | nil =>
    cases t with
    | nil => rfl
    | cons c t =>
      have := c.utf8Size_pos
      simp only [size_nil, List.nil_append, takeBytes, ite_eq_right_iff, reduceCtorEq, imp_false]
      omega
  | cons c s ih => simp [takeBytes, ih]

@[simp] theorem dropBytes_size_append (s t : Text) : dropBytes (size s) (s ++ t) = t := by
  have h := takeBytes_append_dropBytes (size s) (s ++ t)
  rw [takeBytes_size_append] at h
  exact List.append_cancel_left h

/-- Behind the end of a text there is nothing. -/
theorem dropBytes_of_size_le {n : Nat} {t : Text} (h : size t ≤ n) : dropBytes n t = [] := by
  induction t generalizing n with
  | nil => rfl
  | cons c t ih =>
    rw [size_cons] at h
    rw [dropBytes, if_pos (by omega)]
    exact ih (by omega)

/-- The last offset between two characters that is not after `n`, an end of the text included. -/
def floor (t : Text) (n : Nat) : Nat := size (takeBytes n t)

theorem floor_le (t : Text) (n : Nat) : floor t n ≤ n := size_takeBytes_le n t

theorem floor_le_size (t : Text) (n : Nat) : floor t n ≤ size t := by
  have h := congrArg size (takeBytes_append_dropBytes n t)
  rw [size_append] at h
  unfold floor
  omega

/-- Whether an offset lies between two characters of a text or at one of its ends. -/
def isBoundary (t : Text) (n : Nat) : Bool := floor t n == n

/-- A boundary is the size of a beginning of the text. -/
theorem isBoundary_iff {t : Text} {n : Nat} :
    isBoundary t n = true ↔ ∃ front back, t = front ++ back ∧ size front = n := by
  constructor
  · intro h
    exact ⟨takeBytes n t, dropBytes n t, (takeBytes_append_dropBytes n t).symm,
      by simpa [isBoundary, floor] using h⟩
  · rintro ⟨front, back, rfl, rfl⟩
    simp [isBoundary, floor]

/-- The largest boundary below an offset is a boundary. -/
theorem isBoundary_floor (t : Text) (n : Nat) : isBoundary t (floor t n) = true :=
  isBoundary_iff.2 ⟨takeBytes n t, dropBytes n t, (takeBytes_append_dropBytes n t).symm, rfl⟩

/-- A boundary is not past the end. -/
theorem le_size_of_isBoundary {t : Text} {n : Nat} (h : isBoundary t n = true) : n ≤ size t := by
  have h' : floor t n = n := by simpa [isBoundary] using h
  exact h' ▸ floor_le_size t n

end Text

end BoundTemplate
