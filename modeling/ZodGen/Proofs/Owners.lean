import Mathlib.Data.List.Basic
import ZodGen.Script.Liveness

/-!
# The range that holds a place

The search for the range that holds a place bisects the ranges and then looks at one of them only.
Among ranges that take up some text, stand in order and do not overlap, it finds the range that
looking at all of them would find (`ownerAt?_eq_some_iff`), and it finds none only if none holds the
place (`ownerAt?_eq_none_iff`).
-/

namespace ZodGen.Script

/-- A range that holds another one, which may touch its ends. -/
def Span.Holds (r s : Span) : Prop := r.start ≤ s.start ∧ s.stop ≤ r.stop

instance (r s : Span) : Decidable (r.Holds s) := inferInstanceAs (Decidable (_ ∧ _))

/-- Ranges that take up some text, stand in the order of their starts and do not overlap. They may
touch. -/
structure Span.Apart (ranges : List Span) : Prop where
  nonempty : ∀ r ∈ ranges, r.start < r.stop
  sorted : ranges.Pairwise fun a b => a.start ≤ b.start
  disjoint : ranges.Pairwise fun a b => a.stop ≤ b.start ∨ b.stop ≤ a.start

theorem Span.Apart.pairwise {ranges : List Span} (h : Span.Apart ranges) :
    ranges.Pairwise fun a b => a.stop ≤ b.start := by
  refine (h.sorted.and h.disjoint).imp_of_mem fun {a b} _ hb hab => ?_
  have hlt := h.nonempty b hb
  have hle := hab.1
  exact hab.2.resolve_right (by omega)

namespace Liveness

/-! ## Bisection -/

theorem any_getElem?_append {test : Span → Bool} {front back : List Span}
    (hfront : ∀ r ∈ front, test r = true) (hback : ∀ r ∈ back, test r = false) (i : Nat) :
    ((front ++ back)[i]?).any test = true ↔ i < front.length := by
  rcases Nat.lt_or_ge i front.length with hi | hi
  · rw [List.getElem?_append_left hi, List.getElem?_eq_getElem hi]
    simp [hi, hfront]
  · rw [List.getElem?_append_right hi]
    cases hr : back[i - front.length]? with
    | none => simp [hi]
    | some r => simp [hi, hback r (List.mem_of_getElem? hr)]

/-- Bisecting finds where the ranges that pass a test end, if they end in the part at hand. -/
theorem bisect_append {test : Span → Bool} {front back : List Span}
    (hfront : ∀ r ∈ front, test r = true) (hback : ∀ r ∈ back, test r = false) (low size : Nat)
    (hlow : low ≤ front.length) (hsize : front.length ≤ low + size) :
    bisect test (front ++ back) low size = front.length := by
  fun_induction bisect test (front ++ back) low size with
  | case1 low => omega
  | case2 low size hne mid hmid ih =>
    rw [any_getElem?_append hfront hback] at hmid
    exact ih (by omega) (by omega)
  | case3 low size hne mid hmid ih =>
    rw [any_getElem?_append hfront hback] at hmid
    exact ih hlow (by omega)

/-- Among ranges in order, those before the ones that start behind a place decide who owns it. -/
theorem ownerAt?_append {front back : List Span} {u : Span}
    (hfront : ∀ r ∈ front, r.start ≤ u.start) (hback : ∀ r ∈ back, u.start < r.start) :
    ownerAt? (front ++ back) u
      = (front.getLast?.filter fun r => u.stop ≤ r.stop).map fun _ => front.length - 1 := by
  have hbisect : bisect (·.start ≤ u.start) (front ++ back) 0 (front ++ back).length
      = front.length :=
    bisect_append (by simpa using hfront) (by simpa using hback) 0 _ (Nat.zero_le _) (by simp)
  rw [ownerAt?, hbisect]
  rcases List.eq_nil_or_concat' front with rfl | ⟨init, r, rfl⟩
  · rfl
  · have hlast : (init ++ [r] ++ back)[init.length]? = some r := by simp
    simp only [List.length_append, List.length_singleton, hlast, Option.any_some,
      List.getLast?_concat, Option.filter_some, Nat.add_sub_cancel, decide_eq_true_eq]
    split_ifs <;> rfl

/-- Bisecting finds the last range that starts no later than the span, which owns the span if it
does not end before. -/
theorem owner_append {front back : List Span} {u : Span} (hfront : ∀ r ∈ front, r.start ≤ u.start)
    (hback : ∀ r ∈ back, u.start < r.start) :
    owner (front ++ back) u = front.getLast?.filter fun r => u.stop ≤ r.stop := by
  rw [owner, ownerAt?_append hfront hback]
  rcases List.eq_nil_or_concat' front with rfl | ⟨init, r, rfl⟩
  · rfl
  · simp only [List.getLast?_concat, Option.filter_some]
    split_ifs <;> simp

/-! ## The search and a scan -/

/-- Ranges in the order of their starts are divided by any place. -/
theorem exists_split_start (n : Nat) : ∀ {ranges : List Span},
    ranges.Pairwise (fun a b => a.start ≤ b.start) → ∃ front back, ranges = front ++ back
      ∧ (∀ r ∈ front, r.start ≤ n) ∧ ∀ r ∈ back, n < r.start
  | [], _ => ⟨[], [], rfl, by simp, by simp⟩
  | r :: rs, h => by
    obtain ⟨hr, hrs⟩ := List.pairwise_cons.1 h
    by_cases hle : r.start ≤ n
    · obtain ⟨front, back, rfl, hfront, hback⟩ := exists_split_start n hrs
      exact ⟨r :: front, back, rfl, List.forall_mem_cons.2 ⟨hle, hfront⟩, hback⟩
    · have hlt : n < r.start := Nat.lt_of_not_le hle
      refine ⟨[], r :: rs, rfl, by simp, List.forall_mem_cons.2 ⟨hlt, fun x hx => ?_⟩⟩
      exact Nat.lt_of_lt_of_le hlt (hr x hx)

section Scan

variable {ranges : List Span} {s : Span} (h : Span.Apart ranges)

include h

theorem holds_of_ownerAt? {i : Nat} (howner : ownerAt? ranges s = some i) :
    ∃ r, ranges[i]? = some r ∧ r.Holds s := by
  obtain ⟨front, back, rfl, hfront, hback⟩ := exists_split_start s.start h.sorted
  rw [ownerAt?_append hfront hback] at howner
  obtain ⟨r, hr, rfl⟩ := Option.map_eq_some_iff.1 howner
  obtain ⟨hlast, hstop⟩ := Option.filter_eq_some_iff.1 hr
  have hne : front.length - 1 < front.length := by
    have := List.length_pos_of_mem (List.mem_of_getLast? hlast)
    omega
  refine ⟨r, ?_, hfront r (List.mem_of_getLast? hlast), of_decide_eq_true hstop⟩
  rwa [List.getElem?_append_left hne, ← List.getLast?_eq_getElem?]

/-- The ranges behind the one that holds a place start behind the place, and those before do not. -/
theorem ownerAt?_of_holds (hs : s.start < s.stop) {i : Nat} {r : Span} (hr : ranges[i]? = some r)
    (hholds : r.Holds s) : ownerAt? ranges s = some i := by
  obtain ⟨front, back, rfl, rfl⟩ :
      ∃ front back, ranges = (front ++ [r]) ++ back ∧ front.length = i := by
    obtain ⟨hi, rfl⟩ := List.getElem?_eq_some_iff.1 hr
    exact ⟨ranges.take i, ranges.drop (i + 1), by simp, by simp; omega⟩
  obtain ⟨hsorted, -, -⟩ := List.pairwise_append.1 h.sorted
  obtain ⟨-, -, hbefore⟩ := List.pairwise_append.1 hsorted
  obtain ⟨-, -, hbehind⟩ := List.pairwise_append.1 h.pairwise
  rw [ownerAt?_append]
  · simp [hholds.2]
  · refine List.forall_mem_append.2 ⟨fun x hx => ?_, by simpa using hholds.1⟩
    exact Nat.le_trans (hbefore x hx r (by simp)) hholds.1
  · intro x hx
    calc s.start < s.stop := hs
      _ ≤ r.stop := hholds.2
      _ ≤ x.start := hbehind r (by simp) x hx

/-- A span that takes up some text has at most one range around it, and that one is found. -/
theorem ownerAt?_eq_some_iff (hs : s.start < s.stop) (i : Nat) :
    ownerAt? ranges s = some i ↔ ∃ r, ranges[i]? = some r ∧ r.Holds s := by
  constructor
  · exact holds_of_ownerAt? h
  · rintro ⟨r, hr, hholds⟩
    exact ownerAt?_of_holds h hs hr hholds

theorem ownerAt?_eq_none_iff (hs : s.start < s.stop) :
    ownerAt? ranges s = none ↔ ∀ r ∈ ranges, ¬ r.Holds s := by
  simp only [Option.eq_none_iff_forall_ne_some, ne_eq, ownerAt?_eq_some_iff h hs]
  constructor
  · intro hnone r hr hholds
    obtain ⟨i, hi⟩ := List.mem_iff_getElem?.1 hr
    exact hnone i ⟨r, hi, hholds⟩
  · rintro hnone i ⟨r, hr, hholds⟩
    exact hnone r (List.mem_of_getElem? hr) hholds

theorem owner_eq_some_iff (hs : s.start < s.stop) {r : Span} :
    owner ranges s = some r ↔ r ∈ ranges ∧ r.Holds s := by
  rw [owner, Option.bind_eq_some_iff]
  simp only [ownerAt?_eq_some_iff h hs]
  constructor
  · rintro ⟨i, ⟨r', hr', hholds⟩, hr⟩
    obtain rfl := Option.some.inj (hr'.symm.trans hr)
    exact ⟨List.mem_of_getElem? hr, hholds⟩
  · rintro ⟨hr, hholds⟩
    obtain ⟨i, hi⟩ := List.mem_iff_getElem?.1 hr
    exact ⟨i, ⟨r, hi, hholds⟩, hi⟩

theorem owner_eq_none_iff (hs : s.start < s.stop) :
    owner ranges s = none ↔ ∀ r ∈ ranges, ¬ r.Holds s := by
  simp only [Option.eq_none_iff_forall_ne_some, ne_eq, owner_eq_some_iff h hs, not_and]

end Scan

/-! ## Names by their owners -/

theorem mem_declaredIn_place {ranges : List Span} {symbols : List Symbol} {r : Span} {n : String} :
    n ∈ declaredIn r (symbols.map (place ranges)) ↔
      ∃ s ∈ symbols, s.name = n ∧ owner ranges s.span = some r := by
  simp only [declaredIn, place, List.mem_map, List.mem_filter, beq_iff_eq]
  constructor
  · rintro ⟨-, ⟨⟨s, hs, rfl⟩, hr⟩, rfl⟩
    exact ⟨s, hs, rfl, hr⟩
  · rintro ⟨s, hs, rfl, hr⟩
    exact ⟨_, ⟨⟨s, hs, rfl⟩, hr⟩, rfl⟩

theorem usedIn_place (ranges : List Span) (symbols : List Symbol) (range : Option Span) :
    usedIn range (symbols.map (place ranges))
      = (symbols.filter fun y => ∃ u ∈ y.uses, owner ranges u = range).map (·.name) := by
  rw [usedIn, List.filter_map, List.map_map]
  congr 1
  refine List.filter_congr fun y _ => ?_
  simp [place]

end Liveness

end ZodGen.Script
