import Mathlib.Data.Prod.Lex
import Mathlib.Order.Monotone.Basic
import ZodGen.Proofs.CutFrame

/-!
# Positions tell the places of a text apart

Each character moves the position behind a text on: a line break to the next line, any other
character by one column (`positionAfter_concat`). So positions grow with the offsets they stand for,
and the offset is found again by going from the start of the line as many characters as the column
says (`position_locates`).
-/

namespace ZodGen.Text

/-! ## Offsets in a string -/

theorem byteLength_toList (s : String) : byteLength s.toList = s.utf8ByteSize := by
  suffices h : ∀ cs : List Char, byteLength cs = (String.ofList cs).utf8ByteSize by
    rw [h, String.ofList_toList]
  intro cs
  induction cs with
  | nil => rfl
  | cons c cs ih =>
    have hcons : String.ofList (c :: cs) = String.singleton c ++ String.ofList cs :=
      String.toList_injective (by simp)
    rw [byteLength, ih, hcons, String.utf8ByteSize_append, String.utf8ByteSize_singleton]

/-- The byte offsets between two characters of a string, and at its ends. -/
def boundaries (source : String) : Set Nat := {n | (⟨n⟩ : String.Pos.Raw).IsValid source}

theorem mem_boundaries {source : String} {n : Nat} :
    n ∈ boundaries source ↔ IsPlace source.toList n := by
  change (⟨n⟩ : String.Pos.Raw).IsValid source ↔ _
  rw [String.Pos.Raw.isValid_iff_exists_append, isPlace_iff]
  constructor
  · rintro ⟨front, back, rfl, hn⟩
    refine ⟨front.toList, back.toList, String.toList_append, ?_⟩
    rw [byteLength_toList]
    exact congrArg String.Pos.Raw.byteIdx hn
  · rintro ⟨front, back, hcs, rfl⟩
    refine ⟨String.ofList front, String.ofList back, ?_, ?_⟩
    · rw [← String.ofList_append, ← hcs, String.ofList_toList]
    · rw [← String.toList_ofList (l := front), byteLength_toList, String.ofList_toList]
      rfl

theorem before_of_not_isPlace {cs : List Char} {n : Nat} (h : ¬ IsPlace cs n) :
    before cs n = cs := by
  rw [before, Option.not_isSome_iff_eq_none.1 h]

theorem before_byteLength (cs : List Char) : before cs (byteLength cs) = cs := by
  simpa using before_append cs []

/-! ## Positions grow -/

/-- How a character moves the position in front of it on. -/
def move (p : Nat × Nat) (c : Char) : Nat × Nat := if c = '\n' then (p.1 + 1, 1) else (p.1, p.2 + 1)

theorem positionAfter_concat (front : List Char) (c : Char) :
    positionAfter (front ++ [c]) = move (positionAfter front) c := by
  unfold positionAfter move
  by_cases hc : c = '\n' <;> simp [hc, List.count_append]

/-- Every character moves the position on, in the order of lines and then columns. -/
theorem lt_move (p : Nat × Nat) (c : Char) : toLex p < toLex (move p c) := by
  rw [Prod.Lex.toLex_lt_toLex, move]
  split_ifs
  · exact .inl (Nat.lt_succ_self _)
  · exact .inr ⟨rfl, Nat.lt_succ_self _⟩

theorem positionAfter_le : ∀ front more : List Char,
    toLex (positionAfter front) ≤ toLex (positionAfter (front ++ more))
  | front, [] => by rw [List.append_nil]
  | front, c :: more => by
    have hstep := lt_move (positionAfter front) c
    rw [← positionAfter_concat] at hstep
    rw [List.append_cons]
    exact hstep.le.trans (positionAfter_le (front ++ [c]) more)

theorem position_lt {cs : List Char} {m n : Nat} (hm : IsPlace cs m) (hn : IsPlace cs n)
    (hlt : m < n) : toLex (position cs m) < toLex (position cs n) := by
  obtain ⟨a, b, rest, rfl, rfl, rfl⟩ := exists_split hm hn (Nat.le_of_lt hlt)
  rw [position, position, before_append, List.append_assoc, before_append]
  cases b with
  | nil => simp at hlt
  | cons c b =>
    calc toLex (positionAfter a)
        < toLex (positionAfter (a ++ [c])) := positionAfter_concat a c ▸ lt_move _ c
      _ ≤ toLex (positionAfter (a ++ c :: b)) := List.append_cons a c b ▸ positionAfter_le _ b

/-! ## Offsets of positions -/

/-- Where the line behind `n` line breaks starts. -/
def lineStart? : Nat → List Char → Option Nat
  | 0, _ => some 0
  | _ + 1, [] => none
  | n + 1, c :: cs => (lineStart? (if c = '\n' then n else n + 1) cs).map (c.utf8Size + ·)

/-- The offset `n` characters behind another, when there are as many. -/
def advance? (cs : List Char) (n offset : Nat) : Option Nat :=
  let rest := after cs offset
  if n ≤ rest.length then some (offset + byteLength (rest.take n)) else none

/-- A line starts behind as many line breaks as its number. -/
theorem lineStart?_append (rest : List Char) : ∀ {front : List Char},
    front = [] ∨ front.getLast? = some '\n' →
      lineStart? (front.count '\n') (front ++ rest) = some (byteLength front)
  | [], _ => by simp [lineStart?, byteLength]
  | c :: cs, h => by
    have hlast : cs = [] ∨ cs.getLast? = some '\n' := by
      cases cs with
      | nil => exact .inl rfl
      | cons d ds => exact .inr (by simpa using h)
    have ih := lineStart?_append rest hlast
    by_cases hc : c = '\n'
    · rw [hc, List.count_cons_self, List.cons_append, lineStart?, if_pos rfl, ih]
      rfl
    · -- A line break follows, or the text before the line would not end with one.
      have hmem : '\n' ∈ cs := by
        rcases hlast with rfl | hlast
        · simp [hc] at h
        · exact List.mem_of_getLast? hlast
      obtain ⟨n, hn⟩ := Nat.exists_eq_add_one.2 (List.count_pos_iff.2 hmem)
      rw [List.count_cons_of_ne hc, hn, List.cons_append, lineStart?, if_neg hc, ← hn, ih]
      rfl

theorem advance?_append (a b c : List Char) :
    advance? (a ++ b ++ c) b.length (byteLength a) = some (byteLength (a ++ b)) := by
  simp [advance?, List.append_assoc, after_append, byteLength_append]

/-- A line and a column lead back to where they were taken. -/
theorem locate_positionAfter (front back : List Char) : ∃ line column,
    positionAfter front = (line + 1, column + 1) ∧ line = front.count '\n'
      ∧ (lineStart? line (front ++ back)).bind (advance? (front ++ back) column)
        = some (byteLength front) := by
  obtain ⟨f, hfront, hline, hstart⟩ := Script.exists_indent front
  refine ⟨_, _, rfl, rfl, ?_⟩
  rw [← List.length_reverse]
  generalize (front.reverse.takeWhile (· != '\n')).reverse = line at hfront hline ⊢
  subst hfront
  have hcount : (f ++ line).count '\n' = f.count '\n' := by
    rw [List.count_append, List.count_eq_zero_of_not_mem hline, Nat.add_zero]
  have hlineStart := lineStart?_append (line ++ back) hstart
  rw [← List.append_assoc] at hlineStart
  rw [hcount, hlineStart, Option.bind_some, advance?_append]

/-- Line and column tell the byte offsets of a string apart. -/
theorem position_locates (source : String) :
    StrictMonoOn (fun n => toLex (position source.toList n)) (boundaries source)
      ∧ (boundaries source).InjOn (position source.toList)
      ∧ (∀ front back : String, source = front ++ back → ∃ line column,
        position source.toList front.utf8ByteSize = (line + 1, column + 1)
          ∧ line = front.toList.count '\n'
          ∧ (lineStart? line source.toList).bind (advance? source.toList column)
            = some front.utf8ByteSize)
      ∧ ∀ n ∉ boundaries source,
        position source.toList n = position source.toList source.utf8ByteSize := by
  have hmono : StrictMonoOn (fun n => toLex (position source.toList n)) (boundaries source) :=
    fun _ hm _ hn hlt => position_lt (mem_boundaries.1 hm) (mem_boundaries.1 hn) hlt
  refine ⟨hmono, fun m hm n hn heq => hmono.injOn hm hn (congrArg toLex heq), ?_, ?_⟩
  · rintro front back rfl
    have hposition : position (front ++ back).toList front.utf8ByteSize
        = positionAfter front.toList := by
      rw [position, String.toList_append, ← byteLength_toList, before_append]
    rw [hposition, String.toList_append, ← byteLength_toList]
    exact locate_positionAfter front.toList back.toList
  · intro n hn
    rw [position, before_of_not_isPlace fun h => hn (mem_boundaries.2 h), position,
      ← byteLength_toList, before_byteLength]

/-- Offsets behind a line break and a wide character, and one inside of the character. -/
theorem position_locates_umlaut :
    3 ∈ boundaries "é\n\tü" ∧ 6 ∈ boundaries "é\n\tü" ∧ 5 ∉ boundaries "é\n\tü"
      ∧ toLex (position "é\n\tü".toList 3) < toLex (position "é\n\tü".toList 6)
      ∧ position "é\n\tü".toList 5 = position "é\n\tü".toList 6
      ∧ ∃ line column, position "é\n\tü".toList 4 = (line + 1, column + 1)
        ∧ line = "é\n\t".toList.count '\n'
        ∧ (lineStart? line "é\n\tü".toList).bind (advance? "é\n\tü".toList column) = some 4 := by
  have h3 : 3 ∈ boundaries "é\n\tü" := mem_boundaries.2 (by decide)
  have h6 : 6 ∈ boundaries "é\n\tü" := mem_boundaries.2 (by decide)
  have h5 : 5 ∉ boundaries "é\n\tü" := fun h => absurd (mem_boundaries.1 h) (by decide)
  obtain ⟨hmono, -, hlocate, hend⟩ := position_locates "é\n\tü"
  exact ⟨h3, h6, h5, hmono h3 h6 (by decide), hend 5 h5, hlocate "é\n\t" "ü" rfl⟩

end ZodGen.Text
