import BoundTemplate.Script.Lexer.Escape

/-!
# Strings, templates and patterns

The tokens that are delimited by quotes or slashes. One that does not end is an
unknown token; a string does not end at the end of a line.
-/

namespace BoundTemplate.Script

namespace Cursor

variable {script : Text}

/-- A string, read behind its first quote. A wrong escape sequence is reported at its backslash and
does not end the string. -/
def readString (quote : Char) (start : Nat) (c : Cursor script) : Kind × Cursor script :=
  match _h : c.rest with
  | [] => (.unknown, c.report .unterminatedString start)
  | ch :: t =>
    if ch == quote then (.string, c.skip 1)
    else if ch == '\\' then
      let e := stringEscape t
      let next := c.skip (1 + e.1)
      readString quote start (if e.2 then next else next.report .escapeSequence c.offset)
    else if ch == '\n' || ch == '\r' then (.unknown, (c.skip 1).report .unterminatedString start)
    else readString quote start (c.skip 1)
termination_by c.rest.length
decreasing_by
  · split <;> simp only [Cursor.skip, Cursor.report, _h, List.length_drop, List.length_cons] <;>
      omega
  · simp [Cursor.skip, _h]

/-- A quote is the last of what stands between two cursors. -/
def Closes (quote : Char) (c next : Cursor script) : Prop :=
  ∃ content : Text, c.rest = content ++ quote :: next.rest ∧
    next.offset = c.offset + Text.size (content ++ [quote])

/-- What is skipped in front of a quote belongs to what it closes. -/
theorem Closes.of_skip {quote : Char} {c mid next : Cursor script} (n : Nat)
    (hrest : mid.rest = (c.skip n).rest) (hoffset : mid.offset = (c.skip n).offset)
    (h : mid.Closes quote next) : c.Closes quote next := by
  obtain ⟨content, hcontent, hnext⟩ := h
  rw [hrest] at hcontent
  rw [hoffset] at hnext
  refine ⟨c.rest.take n ++ content, ?_, ?_⟩
  · rw [List.append_assoc, ← hcontent]
    exact (List.take_append_drop n c.rest).symm
  · simp only [hnext, skip, Text.size_append]
    omega

/-- A string ends with the quote that it is read behind. -/
theorem closes_readString {quote : Char} {start : Nat} {c : Cursor script} :
    (c.readString quote start).1 = .string → c.Closes quote (c.readString quote start).2 := by
  fun_induction readString quote start c with
  | case1 c hc => nofun
  | case2 c ch t hc hq =>
    intro _
    rw [beq_iff_eq] at hq
    subst hq
    refine ⟨[], ?_, ?_⟩ <;> simp [skip, hc]
  | case3 c ch t hc hq hb e next ih =>
    simp only [dite_eq_ite] at ih
    exact fun h => (ih h).of_skip (1 + e.1) (by split <;> rfl) (by split <;> rfl)
  | case4 c ch t hc hq hb hl => nofun
  | case5 c ch t hc hq hb hl ih => exact fun h => (ih h).of_skip 1 rfl rfl

/-- What starts with a quote is no sign. -/
theorem readString_ne_sign {quote : Char} {start : Nat} {c : Cursor script} (s : Sign) :
    (c.readString quote start).1 ≠ .sign s := by
  fun_induction readString quote start c with
  | case1 | case2 | case4 => nofun
  | case3 _ _ _ _ _ _ _ _ ih => exact ih
  | case5 _ _ _ _ _ _ _ ih => exact ih

/-- A part of a template, read behind the quote or the brace that starts it: `closed` is the part
that a quote ends and `opened` the one that a hole ends. -/
def readTemplate (closed opened : TemplatePart) (start : Nat) (sound : Bool) (c : Cursor script) :
    Kind × Cursor script :=
  match _h : c.rest with
  | [] => (.unknown, c.report .unterminatedString start)
  | '`' :: _ => (.template closed sound, c.skip 1)
  | '$' :: '{' :: _ => (.template opened sound, c.skip 2)
  | '\\' :: t =>
    let e := templateEscape t
    readTemplate closed opened start (sound && e.2) (c.skip (1 + e.1))
  | _ :: _ => readTemplate closed opened start sound (c.skip 1)
termination_by c.rest.length
decreasing_by
  · simp only [Cursor.skip, _h, List.length_drop, List.length_cons]
    omega
  · simp [Cursor.skip, _h]

/-- A part of a template is no string and no sign. -/
theorem isDelimited_readTemplate (c : Cursor script) (closed opened : TemplatePart) (start : Nat)
    (sound : Bool) : (c.readTemplate closed opened start sound).1.isDelimited = false := by
  fun_induction readTemplate closed opened start sound c with
  | case1 | case2 | case3 => rfl
  | case4 _ _ _ _ _ ih => exact ih
  | case5 _ _ _ _ _ _ _ _ ih => exact ih

/-- The body of a pattern, read behind its first slash, up to and with its last one; `none` if a
line or the script ends first. A slash between brackets or behind a backslash does not count. -/
def patternLength (inClass escaped : Bool) : Text → Option Nat
  | [] => none
  | c :: t =>
    if isLineEnd c then none
    else if escaped then (patternLength inClass false t).map (· + 1)
    else if c == '/' && !inClass then some 1
    else if c == '[' then (patternLength true false t).map (· + 1)
    else if c == '\\' then (patternLength inClass true t).map (· + 1)
    else if c == ']' then (patternLength false false t).map (· + 1)
    else (patternLength inClass false t).map (· + 1)

/-- The flags that may follow a pattern, each at most once. -/
def patternFlags : Text := "gimsuydv".toList

/-- Whether a character belongs to the flags of a pattern. -/
def isFlagPart (c : Char) : Bool := c.isAlphanum || c == '$' || c == '_'

/-- Whether some flags ask for two readings of a pattern at once. -/
def flagsConflict (flags : Text) : Bool := flags.contains 'u' && flags.contains 'v'

/-- A pattern, read behind the slash that starts it, and its flags; wrong ones are reported one by
one. -/
def readPattern (start : Nat) (c : Cursor script) : Text × Cursor script :=
  match patternLength false false c.rest with
  | none => ([], (c.skipWhile (!isLineEnd ·)).report .unterminatedPattern start)
  | some n =>
    let body := c.skip n
    let flags := body.rest.takeWhile isFlagPart
    let wrong := flags.zipIdx.filter fun (f, i) =>
      !patternFlags.contains f || (flags.take i).contains f
    (flags, wrong.foldl (fun cur (f, i) => cur.report (.patternFlag f) (body.offset + i))
      (body.skip flags.length))

end Cursor

end BoundTemplate.Script
