/-!
# Reading bytes as UTF-8

Bytes that no character can start with, or that break off inside a character, are read as U+FFFD,
one for each longest piece that could still have become a character. `decode?` is the strict
reading, which has none of that.
-/

namespace ZodGen.Text.Utf8

/-- What a lead byte above 0x7F asks for: how many bytes follow it, the bounds of the first of them,
and the bits it gives itself. -/
def lead? (b : Nat) : Option (Nat × Nat × Nat × Nat) :=
  if b < 0xC2 then none
  else if b ≤ 0xDF then some (1, 0x80, 0xBF, b - 0xC0)
  else if b = 0xE0 then some (2, 0xA0, 0xBF, 0)
  else if b = 0xED then some (2, 0x80, 0x9F, 0xD)
  else if b ≤ 0xEF then some (2, 0x80, 0xBF, b - 0xE0)
  else if b = 0xF0 then some (3, 0x90, 0xBF, 0)
  else if b ≤ 0xF3 then some (3, 0x80, 0xBF, b - 0xF0)
  else if b = 0xF4 then some (3, 0x80, 0x8F, 4)
  else none

/-- Reads `owed` more bytes of a character, the first within `low` and `high`. Gives the character
when all are there, and what is left of the bytes either way. -/
def continued : Nat → Nat → Nat → Nat → List Nat → Option Char × List Nat
  | 0, _, _, bits, bs => (some (Char.ofNat bits), bs)
  | _ + 1, _, _, _, [] => (none, [])
  | owed + 1, low, high, bits, b :: bs =>
    if low ≤ b ∧ b ≤ high then continued owed 0x80 0xBF (bits * 64 + (b - 0x80)) bs
    else (none, b :: bs)

/-- Reads one character, or the piece that U+FFFD stands for, from bytes that start with `b`. -/
def next (b : Nat) (bs : List Nat) : Option Char × List Nat :=
  if b < 0x80 then (some (Char.ofNat b), bs)
  else match lead? b with
    | none => (none, bs)
    | some (owed, low, high, bits) => continued owed low high bits bs

theorem length_continued_le (owed low high bits : Nat) (bs : List Nat) :
    (continued owed low high bits bs).2.length ≤ bs.length := by
  induction bs generalizing owed low high bits with
  | nil => cases owed <;> simp [continued]
  | cons b bs ih =>
    cases owed with
    | zero => simp [continued]
    | succ owed =>
      simp only [continued]
      split
      · exact Nat.le_trans (ih owed 0x80 0xBF _) (by simp)
      · simp

theorem length_next_le (b : Nat) (bs : List Nat) : (next b bs).2.length ≤ bs.length := by
  unfold next
  split
  · simp
  · split
    · simp
    · exact length_continued_le _ _ _ _ _

/-- Characters of the bytes, U+FFFD for what is not UTF-8. -/
def decode : List Nat → List Char
  | [] => []
  | b :: bs => (next b bs).1.getD '\uFFFD' :: decode (next b bs).2
termination_by bs => bs.length
decreasing_by exact Nat.lt_succ_of_le (length_next_le b bs)

/-- Characters of the bytes, when all of them are UTF-8. -/
def decode? : List Nat → Option (List Char)
  | [] => some []
  | b :: bs =>
    match (next b bs).1 with
    | none => none
    | some c => (decode? (next b bs).2).map (c :: ·)
termination_by bs => bs.length
decreasing_by exact Nat.lt_succ_of_le (length_next_le b bs)

end ZodGen.Text.Utf8
