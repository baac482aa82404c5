import Mathlib.Data.List.TakeWhile
import ZodGen.Proofs.CutText

/-!
# What cutting leaves alone

The ranges that are cut out of a text lie in order and do not meet, because what a range takes
beyond its own statement is white space, and two statements never reach for the same line
(`removalRange_le`). So all that changes are dead declarations and the white space around them
(`prune_frame`).
-/

namespace ZodGen

namespace Text

/-! ## Places -/

/-- An offset between two characters of a text, or at an end of it. -/
def IsPlace (cs : List Char) (n : Nat) : Prop := (splitAt? n cs).isSome

instance (cs : List Char) (n : Nat) : Decidable (IsPlace cs n) :=
  inferInstanceAs (Decidable (_ = true))

theorem isPlace_append (a b : List Char) : IsPlace (a ++ b) (byteLength a) := by
  rw [IsPlace, splitAt?_append]
  rfl

theorem isPlace_zero (cs : List Char) : IsPlace cs 0 := isPlace_append [] cs

theorem splitAt?_eq_some : ∀ {n : Nat} {cs a b : List Char}, splitAt? n cs = some (a, b) →
    cs = a ++ b ∧ n = byteLength a
  | 0, cs, a, b, h => by
    rw [splitAt?] at h
    cases h
    exact ⟨rfl, rfl⟩
  | n + 1, [], a, b, h => by simp [splitAt?] at h
  | n + 1, c :: cs, a, b, h => by
    rw [splitAt?] at h
    split_ifs at h with hc
    obtain ⟨⟨a', b'⟩, hrest, heq⟩ := Option.map_eq_some_iff.1 h
    obtain ⟨rfl, hn⟩ := splitAt?_eq_some hrest
    cases heq
    refine ⟨rfl, ?_⟩
    rw [byteLength]
    omega

/-- A place is where some front of the text ends. -/
theorem isPlace_iff {cs : List Char} {n : Nat} :
    IsPlace cs n ↔ ∃ a b, cs = a ++ b ∧ n = byteLength a := by
  constructor
  · intro h
    obtain ⟨⟨a, b⟩, hab⟩ := Option.isSome_iff_exists.1 h
    exact ⟨a, b, splitAt?_eq_some hab⟩
  · rintro ⟨a, b, rfl, rfl⟩
    exact isPlace_append a b

theorem eq_nil_of_byteLength : ∀ {cs : List Char}, byteLength cs = 0 → cs = []
  | [], _ => rfl
  | c :: cs, h => by
    have hc := c.utf8Size_pos
    rw [byteLength] at h
    omega

/-- Of two fronts of a text, the longer one starts with the other. -/
theorem exists_of_append_eq {a b c d : List Char} (h : a ++ b = c ++ d)
    (hle : byteLength a ≤ byteLength c) : ∃ g, c = a ++ g ∧ b = g ++ d := by
  rcases List.append_eq_append_iff.1 h with ⟨g, hc, hb⟩ | ⟨g, rfl, rfl⟩
  · exact ⟨g, hc, hb⟩
  · have hg : g = [] := eq_nil_of_byteLength (by rw [byteLength_append] at hle; omega)
    subst hg
    exact ⟨[], by simp, rfl⟩

/-- Two places cut a text in three. -/
theorem exists_split {cs : List Char} {m n : Nat} (hm : IsPlace cs m) (hn : IsPlace cs n)
    (hle : m ≤ n) : ∃ a b c, cs = a ++ b ++ c ∧ m = byteLength a ∧ n = byteLength (a ++ b) := by
  obtain ⟨a, a', rfl, rfl⟩ := isPlace_iff.1 hm
  obtain ⟨d, d', hd, rfl⟩ := isPlace_iff.1 hn
  obtain ⟨b, rfl, rfl⟩ := exists_of_append_eq hd hle
  exact ⟨a, b, d', by simp, rfl, rfl⟩

theorem slice_append (a b c : List Char) :
    slice (a ++ b ++ c) (byteLength a) (byteLength (a ++ b)) = b := by
  rw [slice, List.append_assoc, after_append, byteLength_append, Nat.add_sub_cancel_left,
    before_append]

theorem slice_of_le {cs : List Char} {m n : Nat} (h : n ≤ m) : slice cs m n = [] := by
  rw [slice, Nat.sub_eq_zero_of_le h]
  exact before_append [] _

section Slices

variable {cs : List Char} {l m n : Nat}

theorem after_eq (hm : IsPlace cs m) (hn : IsPlace cs n) (hle : m ≤ n) :
    after cs m = slice cs m n ++ after cs n := by
  obtain ⟨a, b, c, rfl, rfl, rfl⟩ := exists_split hm hn hle
  rw [slice_append, after_append, List.append_assoc, after_append]

theorem slice_append_slice (hl : IsPlace cs l) (hm : IsPlace cs m) (hn : IsPlace cs n)
    (hlm : l ≤ m) (hmn : m ≤ n) : slice cs l m ++ slice cs m n = slice cs l n := by
  have h : slice cs l m ++ slice cs m n ++ after cs n = slice cs l n ++ after cs n := by
    rw [List.append_assoc, ← after_eq hm hn hmn, ← after_eq hl hm hlm,
      ← after_eq hl hn (Nat.le_trans hlm hmn)]
  exact List.append_cancel_right h

theorem after_after (hm : IsPlace cs m) (hn : IsPlace cs n) (hle : m ≤ n) :
    after (after cs m) (n - m) = after cs n := by
  obtain ⟨a, b, c, rfl, rfl, rfl⟩ := exists_split hm hn hle
  rw [after_append, List.append_assoc, after_append, byteLength_append, Nat.add_sub_cancel_left,
    after_append]

end Slices

theorem byteLength_of_narrow : ∀ {cs : List Char}, (∀ c ∈ cs, c.utf8Size = 1) →
    byteLength cs = cs.length
  | [], _ => rfl
  | c :: cs, h => by
    have ih := byteLength_of_narrow fun d hd => h d (List.mem_cons_of_mem c hd)
    rw [byteLength, h c List.mem_cons_self, ih, List.length_cons, Nat.add_comm]

theorem allBlank_append {a b : List Char} :
    allBlank (a ++ b) = true ↔ allBlank a = true ∧ allBlank b = true := by
  simp [allBlank]

end Text

namespace Script

open Text (byteLength IsPlace allBlank isBlank slice)

/-! ## What a range takes -/

section Lines

theorem firstLine_append : ∀ cs : List Char, (firstLine cs).1 ++ (firstLine cs).2 = cs
  | [] => rfl
  | c :: cs => by
    have ih := firstLine_append cs
    rw [firstLine]
    split_ifs
    · rfl
    · rw [List.cons_append, ih]

theorem firstLine_ends : ∀ cs : List Char,
    (firstLine cs).2 = [] ∨ (firstLine cs).1.getLast? = some '\n'
  | [] => .inl rfl
  | c :: cs => by
    rw [firstLine]
    split_ifs with hc
    · exact .inr (by simp [hc])
    · rcases firstLine_ends cs with h | h
      · exact .inl h
      · refine .inr ?_
        rw [List.getLast?_cons, h]
        rfl

/-- White space that may be taken from the start of a text: whole lines of it, or all that is
there. -/
def WholeLines (w rest : List Char) : Prop :=
  allBlank w = true ∧ (rest = [] ∨ w = [] ∨ w.getLast? = some '\n')

theorem WholeLines.firstLine {cs w rest : List Char} (hblank : allBlank (firstLine cs).1 = true)
    (hcs : (firstLine cs).2 = w ++ rest) (h : WholeLines w rest) :
    WholeLines ((Script.firstLine cs).1 ++ w) rest := by
  refine ⟨Text.allBlank_append.2 ⟨hblank, h.1⟩, ?_⟩
  rcases h.2 with hrest | rfl | hlast
  · exact .inl hrest
  · rcases firstLine_ends cs with h | h
    · exact .inl (hcs.symm.trans h)
    · exact .inr (.inr (by simpa using h))
  · exact .inr (.inr (by simp [hlast]))

theorem wholeLines_blankLines (cs : List Char) :
    ∃ w rest, cs = w ++ rest ∧ blankLines cs = byteLength w ∧ WholeLines w rest := by
  fun_induction blankLines cs with
  | case1 => exact ⟨[], [], rfl, rfl, rfl, .inl rfl⟩
  | case2 c cs hblank ih =>
    obtain ⟨w, rest, hcs, hlen, hw⟩ := ih
    refine ⟨(firstLine (c :: cs)).1 ++ w, rest, ?_, ?_, hw.firstLine hblank hcs⟩
    · rw [List.append_assoc, ← hcs, firstLine_append]
    · rw [hlen, Text.byteLength_append]
  | case3 c cs _ => exact ⟨[], c :: cs, rfl, rfl, rfl, .inr (.inl rfl)⟩

theorem exists_indent (front : List Char) : ∃ f,
    front = f ++ (front.reverse.takeWhile (· != '\n')).reverse
      ∧ '\n' ∉ (front.reverse.takeWhile (· != '\n')).reverse
      ∧ (f = [] ∨ f.getLast? = some '\n') := by
  refine ⟨(front.reverse.dropWhile (· != '\n')).reverse, ?_, ?_, ?_⟩
  · rw [← List.reverse_append, List.takeWhile_append_dropWhile, List.reverse_reverse]
  · intro h
    have := List.mem_takeWhile_imp (List.mem_reverse.1 h)
    simp at this
  · rcases hdrop : front.reverse.dropWhile (· != '\n') with _ | ⟨c, cs⟩
    · exact .inl rfl
    · have hc := List.head?_dropWhile_not (· != '\n') front.reverse
      rw [hdrop] at hc
      refine .inr ?_
      simpa using hc

end Lines

/-- What goes with a text between `front` and `back` that is cut: `u` in front of it and `w` behind
it, both of white space. What is taken in front starts a line, and what is taken behind ends one or
stays on it. -/
structure Takes (front back f u w b : List Char) : Prop where
  front : front = f ++ u
  back : back = w ++ b
  blank : allBlank u = true ∧ allBlank w = true
  before : u = [] ∨ '\n' ∉ u ∧ (f = [] ∨ f.getLast? = some '\n')
  behind : '\n' ∉ w ∨ b = [] ∨ w.getLast? = some '\n'

/-- What is cut with a text is white space. A text that stands alone on its lines takes its
indentation, the rest of the last line and the blank lines below; any other takes the blanks behind
it. -/
theorem exists_takes (front t back : List Char) : ∃ f u w b, Takes front back f u w b
    ∧ removalRange (front ++ t ++ back) ⟨byteLength front, byteLength (front ++ t)⟩
      = (byteLength f, byteLength (front ++ t ++ w)) := by
  obtain ⟨f, hf, hindent, hlines⟩ := exists_indent front
  have hbefore : Text.before (front ++ t ++ back) (byteLength front) = front := by
    rw [List.append_assoc, Text.before_append]
  unfold removalRange
  simp only [hbefore, Text.after_append]
  generalize (front.reverse.takeWhile (· != '\n')).reverse = indent at hf hindent ⊢
  split_ifs with hblank
  -- Alone on its line, the text goes with the whole line and the blank lines below.
  · rw [Bool.and_eq_true] at hblank
    obtain ⟨w, b, hbelow, hlen, hw⟩ := wholeLines_blankLines (firstLine back).2
    have hlines' := hw.firstLine hblank.2 hbelow
    refine ⟨f, indent, (firstLine back).1 ++ w, b, ⟨hf, ?_, ⟨hblank.1, hlines'.1⟩,
      .inr ⟨hindent, hlines⟩, ?_⟩, ?_⟩
    · rw [List.append_assoc, ← hbelow, firstLine_append]
    · rcases hlines'.2 with hb | hnil | hlast
      · exact .inr (.inl hb)
      · exact .inl (by simp [hnil])
      · exact .inr (.inr hlast)
    · rw [hlen, hf]
      simp only [Text.byteLength_append, Prod.mk.injEq]
      omega
  -- Beside something else, only the spaces behind it go.
  · have hspaces : ∀ c ∈ back.takeWhile fun c => c = ' ' || c = '\t', c = ' ' ∨ c = '\t' :=
      fun c hc => by simpa using List.mem_takeWhile_imp hc
    refine ⟨front, [], back.takeWhile fun c => c = ' ' || c = '\t',
      back.dropWhile fun c => c = ' ' || c = '\t', ⟨by simp, ?_, ⟨rfl, ?_⟩, .inl rfl, .inl ?_⟩, ?_⟩
    · rw [List.takeWhile_append_dropWhile]
    · refine List.all_eq_true.2 fun c hc => ?_
      rcases hspaces c hc with rfl | rfl <;> rfl
    · intro h
      rcases hspaces _ h with h | h <;> cases h
    · have hnarrow : ∀ c ∈ back.takeWhile fun c => c = ' ' || c = '\t', c.utf8Size = 1 := by
        intro c hc
        rcases hspaces c hc with rfl | rfl <;> rfl
      rw [Text.byteLength_append (front ++ t), Text.byteLength_of_narrow hnarrow]

/-! ## Ranges of two statements -/

/-- A range of a text that begins and ends with a character other than white space. -/
structure Span.Solid (source : List Char) (s : Span) : Prop where
  start : IsPlace source s.start
  stop : IsPlace source s.stop
  opens : ((slice source s.start s.stop).head?.map isBlank) = some false
  closes : ((slice source s.start s.stop).getLast?.map isBlank) = some false

theorem ne_nil_of_opens {t : List Char} (h : t.head?.map isBlank = some false) : t ≠ [] := by
  rintro rfl
  cases h

/-- White space at the start of a text does not reach behind its first other character. -/
theorem exists_of_blank_front {w b gap t : List Char} (hw : allBlank w = true)
    (ht : t.head?.map isBlank = some false) (h : w ++ b = gap ++ t) :
    ∃ g, gap = w ++ g ∧ b = g ++ t := by
  rcases List.append_eq_append_iff.1 h with ⟨g, hgap, hb⟩ | ⟨z, rfl, rfl⟩
  · exact ⟨g, hgap, hb⟩
  · rcases z with _ | ⟨c, z⟩
    · exact ⟨[], by simp, by simp⟩
    · have hc : isBlank c = true :=
        List.all_eq_true.1 hw c (List.mem_append_right _ List.mem_cons_self)
      simp [hc] at ht

/-- White space at the end of a text does not reach in front of its last other character. -/
theorem exists_of_blank_back {f u gap t : List Char} (hu : allBlank u = true)
    (ht : t.getLast?.map isBlank = some false) (h : f ++ u = t ++ gap) :
    ∃ g, gap = g ++ u ∧ f = t ++ g := by
  have hrev := congrArg List.reverse h
  rw [List.reverse_append, List.reverse_append] at hrev
  obtain ⟨g, hg, hf⟩ := exists_of_blank_front (by simpa [allBlank] using hu)
    (by simpa using ht) hrev
  refine ⟨g.reverse, ?_, ?_⟩
  · have := congrArg List.reverse hg
    simpa using this
  · have := congrArg List.reverse hf
    simpa using this

section Solid

variable {source : List Char} {r s : Span}

theorem Span.Solid.exists_split (h : s.Solid source) : ∃ a t b, source = a ++ t ++ b
    ∧ s = ⟨byteLength a, byteLength (a ++ t)⟩ ∧ t.head?.map isBlank = some false
    ∧ t.getLast?.map isBlank = some false := by
  obtain ⟨start, stop⟩ := s
  have hle : start ≤ stop := by
    by_contra hlt
    exact ne_nil_of_opens h.opens (Text.slice_of_le (Nat.le_of_not_le hlt))
  obtain ⟨a, t, b, rfl, hstart, hstop⟩ := Text.exists_split h.start h.stop hle
  simp only [] at hstart hstop
  subst hstart hstop
  have hopens := h.opens
  have hcloses := h.closes
  rw [Text.slice_append] at hopens hcloses
  exact ⟨a, t, b, rfl, rfl, hopens, hcloses⟩

theorem Span.Solid.start_le_stop (h : s.Solid source) : s.start ≤ s.stop := by
  obtain ⟨a, t, b, -, rfl, -⟩ := h.exists_split
  simp

/-- What is cut with a statement holds the statement, and other than that only white space. -/
structure Span.Margin (source : List Char) (r s : Span) : Prop where
  start : IsPlace source r.start
  stop : IsPlace source r.stop
  front : r.start ≤ s.start ∧ allBlank (slice source r.start s.start) = true
  back : s.stop ≤ r.stop ∧ allBlank (slice source s.stop r.stop) = true

theorem Span.Margin.start_le_stop (h : Span.Margin source r s) (hs : s.Solid source) :
    r.start ≤ r.stop := by
  have hle := hs.start_le_stop
  have hfront := h.front.1
  have hback := h.back.1
  omega

theorem Span.Solid.margin_self (h : s.Solid source) : Span.Margin source s s := by
  refine ⟨h.start, h.stop, ⟨Nat.le_refl _, ?_⟩, ⟨Nat.le_refl _, ?_⟩⟩ <;>
    rw [Text.slice_of_le (Nat.le_refl _)] <;> rfl

/-- The range that goes with a statement that is cut as a whole. -/
def Span.removal (source : List Char) (s : Span) : Span :=
  ⟨(removalRange source s).1, (removalRange source s).2⟩

/-- What is cut with a statement is only white space. -/
theorem Span.Solid.margin_removal (h : s.Solid source) :
    Span.Margin source (s.removal source) s := by
  obtain ⟨a, t, b, rfl, rfl, -⟩ := h.exists_split
  obtain ⟨f, u, w, b', htakes, hrange⟩ := exists_takes a t b
  obtain ⟨rfl, rfl, ⟨hu, hw⟩, -⟩ := htakes
  simp only [Span.removal, hrange]
  refine ⟨?_, ?_, ⟨by simp, ?_⟩, ⟨by simp, ?_⟩⟩
  · rw [List.append_assoc, List.append_assoc]
    exact Text.isPlace_append _ _
  · rw [← List.append_assoc]
    exact Text.isPlace_append _ _
  · rwa [List.append_assoc, Text.slice_append]
  · rwa [← List.append_assoc, Text.slice_append]

/-- Two texts that are cut do not take the same white space. What both would take ends with a line
break for the first and has none for the second. -/
theorem Takes.disjoint {a t gap t' c f f' u u' w w' b b' : List Char}
    (h : Takes a (gap ++ (t' ++ c)) f u w b) (h' : Takes (a ++ t ++ gap) c f' u' w' b')
    (ht : t.getLast?.map isBlank = some false) (ht' : t'.head?.map isBlank = some false) :
    ∃ g, f' = a ++ t ++ w ++ g := by
  have hopens : (t' ++ c).head?.map isBlank = some false := by
    obtain ⟨d, hd, hblank⟩ := Option.map_eq_some_iff.1 ht'
    simp [List.head?_append, hd, hblank]
  have hne : t ≠ [] := by
    rintro rfl
    cases ht
  have hcloses : (a ++ t).getLast?.map isBlank = some false := by
    obtain ⟨d, hd, hblank⟩ := Option.map_eq_some_iff.1 ht
    simp [List.getLast?_append, hd, hblank]
  obtain ⟨g, rfl, hb⟩ := exists_of_blank_front h.blank.2 hopens h.back.symm
  obtain ⟨g', hgap, rfl⟩ := exists_of_blank_back h'.blank.1 hcloses h'.front.symm
  rcases List.append_eq_append_iff.1 hgap with ⟨z, rfl, -⟩ | ⟨z, rfl, hz⟩
  · exact ⟨z, by simp⟩
  -- Both would take `z`, which then has a line break and has none.
  rcases z.eq_nil_or_concat with rfl | ⟨z, d, rfl⟩
  · exact ⟨[], by simp⟩
  exfalso
  rcases h'.before with rfl | ⟨hbreak, hf | hf⟩
  · simp at hz
  · simp [hne] at hf
  · have hg' : '\n' ∈ g' := by
      rcases g'.eq_nil_or_concat with rfl | ⟨g', e, rfl⟩
      · rw [List.append_nil] at hf
        rw [hf] at hcloses
        cases hcloses
      · simp only [List.concat_eq_append, ← List.append_assoc, List.getLast?_concat,
          Option.some.injEq] at hf
        simp [hf]
    rcases h.behind with hw | rfl | hw
    · exact hw (List.mem_append_left _ hg')
    · exact ne_nil_of_opens hopens (List.append_eq_nil_iff.1 hb.symm).2
    · simp only [List.concat_eq_append, ← List.append_assoc, List.getLast?_concat,
        Option.some.injEq] at hw
      exact hbreak (by simp [hz, hw])

/-- Statements in order are cut in order, and the ranges that go with them do not meet. -/
theorem removalRange_le (hr : r.Solid source) (hs : s.Solid source) (hle : r.stop ≤ s.start) :
    (r.removal source).stop ≤ (s.removal source).start := by
  obtain ⟨a, t, b, rfl, rfl, -, hcloses⟩ := hr.exists_split
  obtain ⟨a', t', c, hsource, rfl, hopens, -⟩ := hs.exists_split
  obtain ⟨gap, rfl, rfl⟩ :=
    Text.exists_of_append_eq (hsource.trans (List.append_assoc a' t' c)) hle
  obtain ⟨f, u, w, b, htakes, hrange⟩ := exists_takes a t (gap ++ (t' ++ c))
  obtain ⟨f', u', w', b', htakes', hrange'⟩ := exists_takes (a ++ t ++ gap) t' c
  obtain ⟨g, hg⟩ := htakes.disjoint htakes' hcloses hopens
  rw [← hsource] at hrange'
  simp only [Span.removal, hrange, hrange', hg]
  simp

end Solid

/-! ## The statements of a script in its text -/

/-- A statement with its place, and the declaration that it is when it may be cut. -/
structure PlacedStatement where
  span : Span
  declaration? : Option Declaration
  span_eq : ∀ d, declaration? = some d → d.span = span

/-- Statements of a text in order, none of which starts or ends with white space. -/
structure Body (source : List Char) where
  statements : List PlacedStatement
  solid : ∀ x ∈ statements, x.span.Solid source
  ordered : statements.Pairwise fun x y => x.span.stop ≤ y.span.start

namespace PlacedStatement

variable (source : List Char) (x : PlacedStatement) (flags : List Bool)

/-- How a statement changes when only the flagged declarators stay. -/
def edit? : Option Edit := x.declaration?.bind fun d => editOf? source d flags

/-- What of the text is replaced: without an edit, the statement by itself. -/
def range : Span := ((x.edit? source flags).map fun e => ⟨e.start, e.stop⟩).getD x.span

def text : List Char := slice source x.span.start x.span.stop

/-- What is left of a statement when only the flagged declarators stay. -/
def left : List Char :=
  match x.declaration? with
  | none => x.text source
  | some d =>
    if false ∉ flags then x.text source
    else if true ∉ flags then []
    else
      let texts := ((d.declarators.zip flags).filter Prod.snd).map fun m =>
        String.ofList (slice source m.1.start m.1.stop)
      (d.kind.keyword ++ " " ++ ", ".intercalate texts ++ ";").toList

end PlacedStatement

/-- A text in which ranges are replaced, from an offset on. -/
def rebuilt (source : List Char) : Nat → List (Span × List Char) → List Char
  | offset, [] => Text.after source offset
  | offset, (r, text) :: rest => slice source offset r.start ++ text ++ rebuilt source r.stop rest

namespace Body

variable {source : List Char} (b : Body source) (flags : Nat → List Bool)

/-- The statements, each with the flags of its declarators. -/
def flagged : List (PlacedStatement × List Bool) :=
  b.statements.zipIdx.map fun (x, i) => (x, flags i)

/-- The edits that leave the flagged declarators of each statement. -/
def edits : List Edit := (b.flagged flags).filterMap fun x => x.1.edit? source x.2

end Body

section Edits

variable {source : List Char} {x y : PlacedStatement}

theorem filterMap_flagged {α : Type} (g : Span → α) {f : Span × Bool → Option α}
    (hf : ∀ s live, f (s, live) = if live then some (g s) else none) (zs : List (Span × Bool)) :
    zs.filterMap f = (zs.filter Prod.snd).map fun m => g m.1 := by
  rw [← List.filterMap_eq_map, List.filterMap_filter]
  exact congrArg (List.filterMap · zs) (funext fun m => hf m.1 m.2)

/-- A statement stays if all its declarators do. Otherwise the rest of it takes its place, or, if
nothing is left, it is cut with the white space around it. -/
theorem PlacedStatement.edit?_cases (source : List Char) (x : PlacedStatement) (flags : List Bool) :
    (x.edit? source flags = none ∧ x.left source flags = x.text source)
      ∨ ∃ r, x.edit? source flags = some ⟨r.start, r.stop, x.left source flags⟩
        ∧ (r = x.span ∨ x.left source flags = [] ∧ r = x.span.removal source) := by
  unfold edit? left
  rcases hd : x.declaration? with _ | d
  · exact .inl ⟨rfl, rfl⟩
  have hspan := x.span_eq d hd
  simp only [Option.bind_some, editOf?]
  by_cases hfalse : false ∈ flags
  · have hall : flags.all id = false := List.all_eq_false.2 ⟨false, hfalse, by simp⟩
    by_cases htrue : true ∈ flags
    · have hany : flags.any id = true := List.any_eq_true.2 ⟨true, htrue, rfl⟩
      refine .inr ⟨x.span, ?_, .inl rfl⟩
      rw [filterMap_flagged (fun s => String.ofList (slice source s.start s.stop))
        fun _ _ => rfl]
      simp [hall, hany, hfalse, htrue, hspan]
    · have hany : flags.any id = false := by
        refine List.any_eq_false.2 fun f hf => ?_
        rintro rfl
        exact htrue hf
      refine .inr ⟨x.span.removal source, ?_, .inr ⟨by simp [hfalse, htrue], rfl⟩⟩
      simp [hall, hany, hfalse, htrue, hspan, Span.removal]
  · have hall : flags.all id = true := by
      refine List.all_eq_true.2 fun f hf => ?_
      rcases f
      · exact absurd hf hfalse
      · rfl
    exact .inl (by simp [hall, hfalse])

theorem PlacedStatement.range_of_edit? {flags : List Bool} {e : Edit}
    (h : x.edit? source flags = some e) : x.range source flags = ⟨e.start, e.stop⟩ := by
  rw [range, h]
  rfl

theorem PlacedStatement.range_cases (source : List Char) (x : PlacedStatement) (flags : List Bool) :
    x.range source flags = x.span
      ∨ x.left source flags = [] ∧ x.range source flags = x.span.removal source := by
  unfold range
  rcases x.edit?_cases source flags with ⟨hedit, -⟩ | ⟨r, hedit, hr⟩
  · exact .inl (by rw [hedit]; rfl)
  · rw [hedit]
    exact hr

theorem PlacedStatement.margin (h : x.span.Solid source) (flags : List Bool) :
    Span.Margin source (x.range source flags) x.span := by
  rcases x.range_cases source flags with hr | ⟨-, hr⟩ <;> rw [hr]
  · exact h.margin_self
  · exact h.margin_removal

/-- What is replaced for two statements in order does not meet, whichever way each of them
changes. -/
theorem PlacedStatement.range_le (hx : x.span.Solid source) (hy : y.span.Solid source)
    (hle : x.span.stop ≤ y.span.start) (flags flags' : List Bool) :
    (x.range source flags).stop ≤ (y.range source flags').start := by
  have hremoval := removalRange_le hx hy hle
  have hstop : (x.range source flags).stop ≤ (x.span.removal source).stop := by
    rcases x.range_cases source flags with hr | ⟨-, hr⟩ <;> rw [hr]
    exact hx.margin_removal.back.1
  have hstart : (y.span.removal source).start ≤ (y.range source flags').start := by
    rcases y.range_cases source flags' with hr | ⟨-, hr⟩ <;> rw [hr]
    exact hy.margin_removal.front.1
  omega

end Edits

/-! ## Replacing ranges -/

section Rebuilt

variable {source : List Char}

/-- Ranges of a text in order from an offset on. -/
def OrderedFrom (source : List Char) : Nat → List Span → Prop
  | offset, [] => IsPlace source offset
  | offset, r :: rs => IsPlace source offset ∧ offset ≤ r.start ∧ IsPlace source r.start
    ∧ r.start ≤ r.stop ∧ OrderedFrom source r.stop rs

theorem OrderedFrom.place : ∀ {rs : List Span} {offset : Nat}, OrderedFrom source offset rs →
    IsPlace source offset
  | [], _, h => h
  | _ :: _, _, h => h.1

theorem OrderedFrom.of_le {rs : List Span} {m offset : Nat} (h : OrderedFrom source m rs)
    (ho : IsPlace source offset) (hle : offset ≤ m) : OrderedFrom source offset rs := by
  cases rs with
  | nil => exact ho
  | cons r rs => exact ⟨ho, Nat.le_trans hle h.2.1, h.2.2⟩

theorem rebuilt_eq {m offset : Nat} (ho : IsPlace source offset) (hle : offset ≤ m) :
    ∀ {xs : List (Span × List Char)}, OrderedFrom source m (xs.map Prod.fst) →
      rebuilt source offset xs = slice source offset m ++ rebuilt source m xs
  | [], h => Text.after_eq ho h hle
  | (r, text) :: xs, ⟨hm, hmr, hr, _⟩ => by
    rw [rebuilt, rebuilt, ← Text.slice_append_slice ho hm hr hle hmr]
    simp only [List.append_assoc]

theorem orderedFrom_of_pairwise : ∀ {rs : List Span} {offset : Nat}, IsPlace source offset →
    (∀ r ∈ rs, offset ≤ r.start ∧ IsPlace source r.start ∧ IsPlace source r.stop
      ∧ r.start ≤ r.stop) →
    rs.Pairwise (fun r s => r.stop ≤ s.start) → OrderedFrom source offset rs
  | [], _, ho, _, _ => ho
  | r :: rs, _, ho, hrs, hpairwise => by
    obtain ⟨hor, hstart, hstop, hle⟩ := hrs r List.mem_cons_self
    obtain ⟨hr, hpairwise⟩ := List.pairwise_cons.1 hpairwise
    refine ⟨ho, hor, hstart, hle, orderedFrom_of_pairwise hstop (fun s hs => ?_) hpairwise⟩
    exact ⟨hr s hs, (hrs s (List.mem_cons_of_mem _ hs)).2⟩

/-- Edits give the text in which the range of each statement is replaced by what is left of it. A
statement without an edit is replaced by itself. -/
theorem applyEdits_eq : ∀ {xs : List (PlacedStatement × List Bool)} {offset : Nat},
    OrderedFrom source offset (xs.map fun x => x.1.range source x.2) →
    applyEdits offset (Text.after source offset) (xs.filterMap fun x => x.1.edit? source x.2)
      = rebuilt source offset (xs.map fun x => (x.1.range source x.2, x.1.left source x.2))
  | [], _, _ => rfl
  | (x, flags) :: xs, offset, ⟨ho, hor, hr, hle, h⟩ => by
    dsimp only at hor hr hle h
    have hoffset := Nat.le_trans hor hle
    rw [List.map_cons, rebuilt, List.filterMap_cons]
    rcases x.edit?_cases source flags with ⟨hedit, hleft⟩ | ⟨r, hedit, -⟩
    · have hrange : x.range source flags = x.span := by
        rw [PlacedStatement.range, hedit]
        rfl
      simp only [hrange, hleft, PlacedStatement.text] at hor hr hle h hoffset ⊢
      rw [Text.slice_append_slice ho hr h.place hor hle,
        ← rebuilt_eq ho hoffset (by rwa [List.map_map])]
      simp only [hedit]
      exact applyEdits_eq (h.of_le ho hoffset)
    · have hrange : x.range source flags = r := by
        rw [PlacedStatement.range, hedit]
        rfl
      simp only [hrange] at hor hr hle h hoffset ⊢
      simp only [hedit, applyEdits, Nat.max_eq_left hor, Text.after_after ho h.place hoffset,
        applyEdits_eq h]
      rfl

/-- Ranges that are replaced by themselves leave the text as it is. -/
theorem rebuilt_self : ∀ {rs : List Span} {offset : Nat}, OrderedFrom source offset rs →
    rebuilt source offset (rs.map fun r => (r, slice source r.start r.stop))
      = Text.after source offset
  | [], _, _ => rfl
  | r :: rs, offset, ⟨ho, hor, hr, hle, h⟩ => by
    rw [List.map_cons, rebuilt, rebuilt_self h, List.append_assoc, ← Text.after_eq hr h.place hle,
      ← Text.after_eq ho hr hor]

theorem filter_of_allBlank {cs : List Char} (h : allBlank cs = true) :
    cs.filter (fun c => !isBlank c) = [] := by
  refine List.filter_eq_nil_iff.2 fun c hc => ?_
  simp [List.all_eq_true.1 h c hc]

/-- Up to white space, it does not matter whether a range is replaced or only what it has a margin
around. -/
theorem filter_rebuilt : ∀ {xs : List (Span × Span × List Char)} {o o' : Nat},
    (∀ x ∈ xs, Span.Margin source x.1 x.2.1) → (∀ x ∈ xs, x.2.1.Solid source) →
    OrderedFrom source o' (xs.map Prod.fst) → IsPlace source o → o ≤ o' →
    allBlank (slice source o o') = true →
    (rebuilt source o' (xs.map fun x => (x.1, x.2.2))).filter (fun c => !isBlank c)
      = (rebuilt source o (xs.map Prod.snd)).filter (fun c => !isBlank c)
  | [], o, o', _, _, h, ho, hle, hblank => by
    simp only [List.map_nil, rebuilt, Text.after_eq ho h hle, List.filter_append,
      filter_of_allBlank hblank, List.nil_append]
  | (r, s, text) :: xs, o, o', hm, hs, ⟨ho', hor, hr, hle, h⟩, ho, hoo, hblank => by
    have hmargin := hm _ List.mem_cons_self
    have hsolid := hs _ List.mem_cons_self
    dsimp only at hmargin hsolid hor hr hle h
    have ih := filter_rebuilt (fun x hx => hm x (List.mem_cons_of_mem _ hx))
      (fun x hx => hs x (List.mem_cons_of_mem _ hx)) h hsolid.stop hmargin.back.1 hmargin.back.2
    have hgap : slice source o s.start
        = slice source o o' ++ slice source o' r.start ++ slice source r.start s.start := by
      rw [Text.slice_append_slice ho ho' hr hoo hor, Text.slice_append_slice ho hr hsolid.start
        (Nat.le_trans hoo hor) hmargin.front.1]
    simp only [List.map_cons, rebuilt, List.filter_append, ih, hgap, filter_of_allBlank hblank,
      filter_of_allBlank hmargin.front.2, List.nil_append, List.append_nil]

end Rebuilt

/-! ## The frame -/

namespace Body

variable {source : List Char} (b : Body source) (flags : Nat → List Bool)

/-- Whatever declarators are flagged, cutting the others changes nothing but dead declarations and
white space. -/
structure Framed : Prop where
  /-- No edit is out of bounds or inverted, and no two of them meet. -/
  places : ∀ e ∈ b.edits flags, IsPlace source e.start ∧ IsPlace source e.stop ∧ e.start ≤ e.stop
  ordered : (b.edits flags).Pairwise fun e e' => e.stop ≤ e'.start
  /-- A range holds its own statement, white space, and nothing of any other statement. -/
  own : ∀ x ∈ b.flagged flags, Span.Margin source (x.1.range source x.2) x.1.span
  others : (b.flagged flags).Pairwise fun x y =>
    (x.1.range source x.2).stop ≤ y.1.span.start ∧ x.1.span.stop ≤ (y.1.range source y.2).start
  /-- White space goes only with a statement of which nothing is left. -/
  narrow : ∀ x ∈ b.flagged flags, x.1.left source x.2 ≠ [] → x.1.range source x.2 = x.1.span
  /-- The text is its statements and what stands between them; all but the ranges is copied. -/
  source_eq : source = rebuilt source 0 ((b.flagged flags).map fun x =>
    (x.1.span, x.1.text source))
  output_eq : applyEdits 0 source (b.edits flags) = rebuilt source 0
    ((b.flagged flags).map fun x => (x.1.range source x.2, x.1.left source x.2))
  /-- So every other character that is not white space is kept in its order. -/
  filter_output : (applyEdits 0 source (b.edits flags)).filter (fun c => !isBlank c)
    = (rebuilt source 0 ((b.flagged flags).map fun x =>
        (x.1.span, x.1.left source x.2))).filter fun c => !isBlank c

variable {b flags} in
theorem solid_flagged {x : PlacedStatement × List Bool} (hx : x ∈ b.flagged flags) :
    x.1.span.Solid source := by
  obtain ⟨⟨y, i⟩, hy, rfl⟩ := List.mem_map.1 hx
  exact b.solid y (List.fst_mem_of_mem_zipIdx hy)

theorem pairwise_flagged :
    (b.flagged flags).Pairwise fun x y => x.1.span.stop ≤ y.1.span.start := by
  have h : ((b.flagged flags).map Prod.fst).Pairwise fun x y => x.span.stop ≤ y.span.start := by
    rw [flagged, List.map_map]
    exact (List.zipIdx_map_fst 0 b.statements).symm ▸ b.ordered
  exact List.pairwise_map.1 h

theorem pairwise_range : (b.flagged flags).Pairwise fun x y =>
    (x.1.range source x.2).stop ≤ (y.1.range source y.2).start :=
  (b.pairwise_flagged flags).imp_of_mem fun hx hy hle =>
    PlacedStatement.range_le (solid_flagged hx) (solid_flagged hy) hle _ _

variable {b flags}

theorem orderedFrom_flagged {f : PlacedStatement × List Bool → Span}
    (hmargin : ∀ x ∈ b.flagged flags, Span.Margin source (f x) x.1.span)
    (hpairwise : (b.flagged flags).Pairwise fun x y => (f x).stop ≤ (f y).start) :
    OrderedFrom source 0 ((b.flagged flags).map f) := by
  refine orderedFrom_of_pairwise (Text.isPlace_zero _) (fun r hr => ?_)
    (List.pairwise_map.2 hpairwise)
  obtain ⟨x, hx, rfl⟩ := List.mem_map.1 hr
  have hmargin := hmargin x hx
  exact ⟨Nat.zero_le _, hmargin.start, hmargin.stop, hmargin.start_le_stop (solid_flagged hx)⟩

theorem margin_flagged {x : PlacedStatement × List Bool} (hx : x ∈ b.flagged flags) :
    Span.Margin source (x.1.range source x.2) x.1.span :=
  x.1.margin (solid_flagged hx) x.2

theorem orderedFrom_ranges (b : Body source) (flags : Nat → List Bool) :
    OrderedFrom source 0 ((b.flagged flags).map fun x => x.1.range source x.2) :=
  orderedFrom_flagged (fun _ hx => margin_flagged hx) (b.pairwise_range flags)

theorem applyEdits_edits (b : Body source) (flags : Nat → List Bool) :
    applyEdits 0 source (b.edits flags) = rebuilt source 0
      ((b.flagged flags).map fun x => (x.1.range source x.2, x.1.left source x.2)) := by
  rw [← applyEdits_eq (b.orderedFrom_ranges flags), edits]
  exact congrArg (applyEdits 0 · _) (Text.after_append [] source).symm

/-- Up to white space, edits replace statements by what is left of them and keep all else. -/
theorem filter_applyEdits (b : Body source) (flags : Nat → List Bool) :
    (applyEdits 0 source (b.edits flags)).filter (fun c => !isBlank c)
      = (rebuilt source 0 ((b.flagged flags).map fun x =>
          (x.1.span, x.1.left source x.2))).filter fun c => !isBlank c := by
  have hfilter := @filter_rebuilt source
    ((b.flagged flags).map fun x => (x.1.range source x.2, x.1.span, x.1.left source x.2)) 0 0
  simp only [List.map_map] at hfilter
  rw [applyEdits_edits]
  refine hfilter ?_ ?_ (b.orderedFrom_ranges flags) (Text.isPlace_zero _) (Nat.le_refl _) ?_
  · intro x hx
    obtain ⟨y, hy, rfl⟩ := List.mem_map.1 hx
    exact margin_flagged hy
  · intro x hx
    obtain ⟨y, hy, rfl⟩ := List.mem_map.1 hx
    exact solid_flagged hy
  · rw [Text.slice_of_le (Nat.le_refl _)]
    rfl

/-- The order of the ranges bounds the edits, and their margins say what is lost; both hold for any
flags. -/
theorem framed (b : Body source) (flags : Nat → List Bool) : b.Framed flags := by
  refine ⟨?_, ?_, fun x hx => margin_flagged hx, ?_, ?_, ?_, b.applyEdits_edits flags,
    b.filter_applyEdits flags⟩
  · intro e he
    obtain ⟨x, hx, hedit⟩ := List.mem_filterMap.1 he
    have hmargin := margin_flagged hx
    rw [PlacedStatement.range_of_edit? hedit] at hmargin
    exact ⟨hmargin.start, hmargin.stop, hmargin.start_le_stop (solid_flagged hx)⟩
  · refine List.pairwise_filterMap.2 ((b.pairwise_range flags).imp fun hle e he e' he' => ?_)
    rwa [PlacedStatement.range_of_edit? he, PlacedStatement.range_of_edit? he'] at hle
  · refine (b.pairwise_range flags).imp_of_mem fun hx hy hle => ?_
    have hfront := (margin_flagged hy).front.1
    have hback := (margin_flagged hx).back.1
    omega
  · intro x hx hleft
    rcases x.1.range_cases source x.2 with hr | ⟨hnil, -⟩
    · exact hr
    · exact absurd hnil hleft
  · have hself := rebuilt_self (orderedFrom_flagged
      (fun x hx => (solid_flagged hx).margin_self) (b.pairwise_flagged flags))
    rw [List.map_map] at hself
    exact (Text.after_append [] source).symm.trans hself.symm

theorem edits_of_statements {p : Program} (h : p.statements = b.statements.map (·.declaration?)) :
    Script.edits source p = b.edits (Liveness.ofProgram p).flags := by
  unfold Script.edits edits flagged
  rw [h, List.zipIdx_map, List.filterMap_map, List.filterMap_map]
  rfl

end Body

/-- The statements of a text stand in order and begin and end with characters other than white
space. Then, whatever declarators are flagged, cutting the others changes nothing but dead
declarations and white space, and pruning cuts those that are not live. -/
theorem prune_frame (source : String) (b : Body source.toList) :
    (∀ flags, b.Framed flags)
      ∧ ∀ p, parse source = .ok p → p.statements = b.statements.map (·.declaration?) →
        prune source = .ok (String.ofList
          (applyEdits 0 source.toList (b.edits (Liveness.ofProgram p).flags))) := by
  refine ⟨b.framed, fun p hp hstatements => ?_⟩
  rw [prune, hp, ← Body.edits_of_statements hstatements]
  rfl

section Ledger

instance (source : List Char) (s : Span) : Decidable (s.Solid source) :=
  decidable_of_iff
    (IsPlace source s.start ∧ IsPlace source s.stop
      ∧ (slice source s.start s.stop).head?.map isBlank = some false
      ∧ (slice source s.start s.stop).getLast?.map isBlank = some false)
    ⟨fun h => ⟨h.1, h.2.1, h.2.2.1, h.2.2.2⟩, fun h => ⟨h.1, h.2, h.3, h.4⟩⟩

def ledger : String := "log(sum);\nvar é = 2, sum = 5;\n\n  let x; // spare\n"

def ledgerStatements : List PlacedStatement :=
  [⟨⟨0, 9⟩, none, by simp⟩,
   ⟨⟨10, 30⟩, some ⟨.var, ⟨10, 30⟩, [⟨14, 20⟩, ⟨22, 29⟩]⟩, by simp⟩,
   ⟨⟨34, 40⟩, some ⟨.let_, ⟨34, 40⟩, [⟨38, 39⟩]⟩, by simp⟩]

def ledgerBody : Body ledger.toList where
  statements := ledgerStatements
  solid := by decide +kernel
  ordered := by decide

theorem statements_ledger : (parse ledger).map (·.statements)
    = .ok (ledgerBody.statements.map (·.declaration?)) := by
  decide +kernel

theorem prune_frame_ledger : ∃ p, parse ledger = .ok p
    ∧ p.statements = ledgerBody.statements.map (·.declaration?)
    ∧ (∀ flags, ledgerBody.Framed flags)
    ∧ prune ledger = .ok (String.ofList
        (applyEdits 0 ledger.toList (ledgerBody.edits (Liveness.ofProgram p).flags))) := by
  have hstatements := statements_ledger
  obtain ⟨hframed, hprune⟩ := prune_frame ledger ledgerBody
  rcases hp : parse ledger with e | p <;> rw [hp] at hstatements
  · cases hstatements
  · have heq := Except.ok.inj hstatements
    exact ⟨p, rfl, heq, hframed, hprune p hp heq⟩

end Ledger

end Script

end ZodGen
