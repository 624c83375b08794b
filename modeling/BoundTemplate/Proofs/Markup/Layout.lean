import BoundTemplate.Markup.Document
import BoundTemplate.Proofs.Text.Part

/-!
# Layouts of markup

A layout says how sibling nodes and stray end tags make up a stretch of a text: each
starts where the one in front of it stops, and the children of an element make up
what lies between its tags in the same way. The markup of a text without byte order
marks is laid out over all of the text, whatever is wrong with it.
-/

namespace BoundTemplate.Markup

/-- The span of an end tag that ends no element. -/
def strayTag? : Span × Problem → Option Span
  | (span, .strayEndTag _) => some span
  | _ => none

/-- The spans of the end tags that end no element, in the order of the problems. -/
def strayTags (problems : List (Span × Problem)) : List Span := problems.filterMap strayTag?

/-- Where a start tag stands, the text has the characters of one, and its parts are read from
them. -/
def StartTag.IsRead (source : Text) (tag : StartTag) : Prop :=
  ∃ (token : Token) (name others : Text),
    (token = .startTag name others ∨ token = .emptyTag name others) ∧
    source.Holds tag.range token.lexeme ∧ Builder.readTag source name.size tag.range = .ok tag

/-- Sibling nodes that lie between two offsets, latest first, and the stray end tags between them
and inside of them, latest first. -/
inductive Layout (source : Text) : Nat → List Node → List Span → Nat → Prop
  | nil (start : Nat) : Layout source start [] [] start
  | text {start : Nat} {nodes : List Node} {strays : List Span} {span : Span} {part : Text}
      (elders : Layout source start nodes strays span.start) (holds : source.Holds span part)
      (ne : part ≠ []) (apart : ∀ last, nodes.head? = some (.text last) → last.stop ≠ span.start) :
      Layout source start (.text span :: nodes) strays span.stop
  | comment {start : Nat} {nodes : List Node} {strays : List Span} {span : Span} {content : Text}
      (elders : Layout source start nodes strays span.start)
      (holds : source.Holds span (Token.comment content).lexeme) :
      Layout source start (.comment span :: nodes) strays span.stop
  | element {start : Nat} {nodes children : List Node} {strays inside : List Span}
      {range name inner : Span} {attributes : List Attribute}
      (elders : Layout source start nodes strays range.start)
      (tag : StartTag.IsRead source ⟨⟨range.start, inner.start⟩, name, attributes⟩)
      (content : Layout source inner.start children.reverse inside inner.stop)
      (le : inner.stop ≤ range.stop) (ends : source.isBoundary range.stop = true) :
      Layout source start (.element range name attributes inner children :: nodes)
        (inside ++ strays) range.stop
  | stray {start : Nat} {nodes : List Node} {strays : List Span} {span : Span} {name others : Text}
      (elders : Layout source start nodes strays span.start)
      (holds : source.Holds span (Token.endTag name others).lexeme) :
      Layout source start nodes (span :: strays) span.stop

/-- The nodes outside of all open elements and those in each of these make up the text in front of
an offset: an open element starts where what is complete in front of it stops. -/
def OpenLayout (source : Text) (roots : List Node) : List OpenElement → List Span → Nat → Prop
  | [], strays, offset => Layout source 0 roots strays offset
  | e :: stack, strays, offset =>
    ∃ inside outside, strays = inside ++ outside ∧ e.tag.IsRead source ∧
      Layout source e.tag.range.stop e.children inside offset ∧
      OpenLayout source roots stack outside e.tag.range.start

/-- A start tag has characters. -/
theorem StartTag.IsRead.start_lt_stop {source : Text} {tag : StartTag} (h : tag.IsRead source) :
    tag.range.start < tag.range.stop := by
  obtain ⟨token, -, -, -, holds, -⟩ := h
  exact holds.start_lt_stop token.lexeme_ne_nil

theorem StartTag.IsRead.isBoundary_stop {source : Text} {tag : StartTag} (h : tag.IsRead source) :
    source.isBoundary tag.range.stop = true := by
  obtain ⟨token, -, -, -, holds, -⟩ := h
  exact holds.isBoundary_stop

namespace Layout

variable {source : Text} {start stop : Nat} {nodes : List Node} {strays : List Span}

/-- A layout does not go back. -/
theorem start_le_stop (h : Layout source start nodes strays stop) : start ≤ stop := by
  induction h with
  | nil start => exact Nat.le_refl start
  | text _ holds _ _ ih => exact Nat.le_trans ih holds.start_le_stop
  | comment _ holds ih => exact Nat.le_trans ih holds.start_le_stop
  | element _ tag _ le _ ih _ =>
    have h := tag.start_lt_stop
    simp only at h
    omega
  | stray _ holds ih => exact Nat.le_trans ih holds.start_le_stop

/-- The nodes of a layout end in it. -/
theorem stop_le_of_mem (h : Layout source start nodes strays stop) :
    ∀ node ∈ nodes, node.span.stop ≤ stop := by
  induction h with
  | nil start => simp
  | text _ holds _ _ ih | comment _ holds ih =>
    intro node hn
    rcases List.mem_cons.1 hn with rfl | hn
    · exact Nat.le_refl _
    · exact Nat.le_trans (ih node hn) holds.start_le_stop
  | element _ tag content le _ ih _ =>
    intro node hn
    rcases List.mem_cons.1 hn with rfl | hn
    · exact Nat.le_refl _
    · have h₁ := tag.start_lt_stop
      have h₂ := content.start_le_stop
      have h₃ := ih node hn
      simp only at h₁
      omega
  | stray _ holds ih =>
    intro node hn
    exact Nat.le_trans (ih node hn) holds.start_le_stop

/-- A text that goes to the end of a layout is the last thing in it. -/
theorem of_touching_text {last : Span} (h : Layout source start (.text last :: nodes) strays stop)
    (touch : last.stop = stop) :
    Layout source start nodes strays last.start ∧ (∃ part, source.Holds last part ∧ part ≠ []) ∧
      ∀ other, nodes.head? = some (.text other) → other.stop ≠ last.start := by
  cases h with
  | text elders holds ne apart => exact ⟨elders, ⟨_, holds, ne⟩, apart⟩
  | stray elders holds =>
    have h₁ := elders.stop_le_of_mem _ List.mem_cons_self
    have h₂ := holds.start_lt_stop (Token.lexeme_ne_nil _)
    simp only [Node.span] at h₁
    omega

/-- A text is added to a layout, by itself or to the text in front of it. -/
theorem addText {span : Span} {part : Text} (h : Layout source start nodes strays span.start)
    (holds : source.Holds span part) (ne : part ≠ []) :
    Layout source start ((Node.text span).addTo nodes) strays span.stop := by
  cases nodes with
  | nil => exact .text h holds ne (by simp)
  | cons node others =>
    cases node with
    | text last =>
      by_cases touch : last.stop = span.start
      · obtain ⟨elders, ⟨part', holds', -⟩, apart⟩ := h.of_touching_text touch
        have whole : source.Holds ⟨last.start, span.stop⟩ (part' ++ part) :=
          Text.Holds.append (b := span.start) (touch ▸ holds') holds
        simp only [Node.addTo, touch, if_true]
        exact .text elders whole (by simp [ne]) apart
      · simp only [Node.addTo, touch, if_false]
        refine .text h holds ne ?_
        rintro other ⟨⟩
        exact touch
    | comment => exact .text h holds ne (by simp)
    | element => exact .text h holds ne (by simp)

end Layout

end BoundTemplate.Markup
