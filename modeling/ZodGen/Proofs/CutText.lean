import ZodGen.Script.Prune

/-!
# Cutting pieces out of a text

A text that is put together from pieces loses exactly the pieces that are cut
(`applyEdits_cuts`). A section that stands on lines of its own, with one empty line and more text
below it, is cut with its line break and the empty line (`removalRange_section`).
-/

namespace ZodGen

namespace Text

@[simp]
theorem byteLength_append : ∀ a b : List Char, byteLength (a ++ b) = byteLength a + byteLength b
  | [], b => by simp [byteLength]
  | c :: a, b => by
    rw [List.cons_append, byteLength, byteLength, byteLength_append a b, Nat.add_assoc]

theorem splitAt?_append : ∀ a b : List Char, splitAt? (byteLength a) (a ++ b) = some (a, b)
  | [], b => by
    cases b <;> rfl
  | c :: a, b => by
    have hc : 0 < c.utf8Size := c.utf8Size_pos
    obtain ⟨n, hn⟩ : ∃ n, byteLength (c :: a) = n + 1 :=
      ⟨c.utf8Size - 1 + byteLength a, by rw [byteLength]; omega⟩
    have hle : c.utf8Size ≤ n + 1 := by rw [← hn, byteLength]; omega
    have hrest : n + 1 - c.utf8Size = byteLength a := by rw [← hn, byteLength]; omega
    rw [hn, List.cons_append, splitAt?, if_pos hle, hrest, splitAt?_append a b]
    rfl

@[simp]
theorem before_append (a b : List Char) : before (a ++ b) (byteLength a) = a := by
  rw [before, splitAt?_append]

@[simp]
theorem after_append (a b : List Char) : after (a ++ b) (byteLength a) = b := by
  rw [after, splitAt?_append]

end Text

namespace Script

open Text (byteLength)

/-! ## Edits that cut -/

section Cuts

/-- The edits that cut the pieces that are not kept, from an offset on. -/
def cuts : Nat → List (List Char × Bool) → List Edit
  | _, [] => []
  | offset, (cs, keep) :: pieces =>
    if keep then cuts (offset + byteLength cs) pieces
    else ⟨offset, offset + byteLength cs, []⟩ :: cuts (offset + byteLength cs) pieces

theorem cuts_concat_kept (cs : List Char) : ∀ (pieces : List (List Char × Bool)) (offset : Nat),
    cuts offset (pieces ++ [(cs, true)]) = cuts offset pieces
  | [], _ => rfl
  | (_, true) :: pieces, _ => by
    simp [cuts, cuts_concat_kept cs pieces]
  | (_, false) :: pieces, _ => by
    simp [cuts, cuts_concat_kept cs pieces]

/-- What stands between the last edit and the pieces is copied. -/
theorem applyEdits_cuts_from : ∀ (pieces : List (List Char × Bool)) (offset : Nat)
    (front : List Char),
    applyEdits offset (front ++ pieces.flatMap Prod.fst) (cuts (offset + byteLength front) pieces)
      = front ++ (pieces.filter Prod.snd).flatMap Prod.fst
  | [], offset, front => rfl
  | (cs, true) :: pieces, offset, front => by
    have ih := applyEdits_cuts_from pieces offset (front ++ cs)
    rw [Text.byteLength_append, ← Nat.add_assoc] at ih
    simpa [cuts] using ih
  | (cs, false) :: pieces, offset, front => by
    have ih := applyEdits_cuts_from pieces (offset + byteLength front + byteLength cs) []
    have hmax : max (offset + byteLength front) offset - offset = byteLength front := by omega
    have hstop : offset + byteLength front + byteLength cs - offset
        = byteLength (front ++ cs) := by
      rw [Text.byteLength_append]
      omega
    simp only [byteLength, Nat.add_zero, List.nil_append] at ih
    simp only [cuts, Bool.false_eq_true, if_false, List.flatMap_cons, applyEdits, hmax, hstop,
      Text.before_append, List.append_nil, List.filter_cons_of_neg, not_false_eq_true]
    rw [← List.append_assoc, Text.after_append, ih]

/-- Cutting pieces of a text leaves the others, in order. -/
theorem applyEdits_cuts (pieces : List (List Char × Bool)) :
    applyEdits 0 (pieces.flatMap Prod.fst) (cuts 0 pieces)
      = (pieces.filter Prod.snd).flatMap Prod.fst := by
  simpa [byteLength] using applyEdits_cuts_from pieces 0 []

end Cuts

/-! ## The range of a section -/

section Removal

theorem blankLines_of_head {c : Char} (h : Text.isBlank c = false) (cs : List Char) :
    blankLines (c :: cs) = 0 := by
  have hne : c ≠ '\n' := fun he => by
    subst he
    exact absurd h (by decide)
  rw [blankLines, firstLine, if_neg hne]
  simp [Text.allBlank, h]

/-- A section on lines of its own goes with its line break and the empty line below it. -/
theorem removalRange_section (front : List Char) (cs : List Char) {c : Char} (rest : List Char)
    (hc : Text.isBlank c = false) (span : Span)
    (hstart : span.start = byteLength (front ++ ['\n']))
    (hstop : span.stop = byteLength (front ++ ['\n'] ++ cs)) :
    removalRange (front ++ ['\n'] ++ cs ++ '\n' :: '\n' :: c :: rest) span
      = (span.start, span.stop + 2) := by
  have hbefore : Text.before (front ++ ['\n'] ++ cs ++ '\n' :: '\n' :: c :: rest) span.start
      = front ++ ['\n'] := by
    rw [hstart, List.append_assoc (front ++ ['\n'])]
    exact Text.before_append _ _
  have hafter : Text.after (front ++ ['\n'] ++ cs ++ '\n' :: '\n' :: c :: rest) span.stop
      = '\n' :: '\n' :: c :: rest := by
    rw [hstop]
    exact Text.after_append _ _
  have hindent : ((front ++ ['\n']).reverse.takeWhile (· != '\n')).reverse = [] := by simp
  have hblank : blankLines ('\n' :: c :: rest) = 1 := by
    have hline : firstLine ('\n' :: c :: rest) = (['\n'], c :: rest) := rfl
    rw [blankLines, hline]
    simp only [blankLines_of_head hc]
    rw [if_pos (by decide)]
    rfl
  unfold removalRange
  simp only [hbefore, hafter, hindent, firstLine, if_true, hblank]
  rw [if_pos (by decide)]
  rfl

end Removal

end Script

end ZodGen
