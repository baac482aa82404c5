import ZodGen.Proofs.Liveness

/-!
# Marking by a queue of names

The live bindings can also be found with a queue of names that starts with the seeds. The name in
front is taken off; each binding of it that has no mark gets one, and the names used there go behind
the queue. Between two turns a name that is a seed, or is used in a marked binding, waits in the
queue or has marked bindings only (`Invariant.look`). So when the queue is empty the marked bindings
are closed, and they are the live ones (`marks_eq`).
-/

namespace ZodGen.Script.Liveness

/-- A search under way: the names to look up, the next one first, and the marks of the bindings. -/
structure Marking where
  queue : List String
  marks : List Bool

/-- The places of the bindings that have a name. -/
def declaredBy (l : Liveness) (name : String) : List Nat :=
  (List.range l.bindings.length).filter fun i => (l.bindings[i]?).any (·.names.contains name)

theorem mem_declaredBy {l : Liveness} {name : String} {i : Nat} :
    i ∈ l.declaredBy name ↔ ∃ b, l.bindings[i]? = some b ∧ name ∈ b.names := by
  simp only [declaredBy, List.mem_filter, List.mem_range, Option.any_eq_true, List.contains_iff_mem]
  refine and_iff_right_of_imp ?_
  rintro ⟨b, hb, -⟩
  exact (List.getElem?_eq_some_iff.1 hb).1

namespace Marking

/-- Marks a binding, unless it has its mark, and puts the names that it uses behind the queue. -/
def visit (l : Liveness) (w : Marking) (i : Nat) : Marking :=
  if w.marks[i]? = some false then
    ⟨w.queue ++ (l.bindings[i]?).elim [] (·.references), w.marks.set i true⟩
  else w

/-- Visits the bindings that have a name. -/
def look (l : Liveness) (w : Marking) (name : String) : Marking :=
  (l.declaredBy name).foldl (visit l) w

variable {l : Liveness} {w : Marking}

/-! ## The search ends -/

section Ends

/-- A visit does nothing, or marks a binding that was not marked. -/
theorem visit_eq_or_lt (l : Liveness) (w : Marking) (i : Nat) :
    visit l w i = w ∨ (visit l w i).marks.count false < w.marks.count false := by
  unfold visit
  split_ifs with h
  · obtain ⟨hi, hget⟩ := List.getElem?_eq_some_iff.1 h
    have hpos : 0 < w.marks.count false := List.count_pos_iff.2 (hget ▸ List.getElem_mem hi)
    have hset : (w.marks.set i true).count false = w.marks.count false - 1 := by
      rw [List.count_set hi, hget]
      simp
    exact .inr (hset ▸ Nat.sub_lt hpos Nat.one_pos)
  · exact .inl rfl

theorem foldl_eq_or_lt (l : Liveness) : ∀ (places : List Nat) (w : Marking),
    places.foldl (visit l) w = w
      ∨ (places.foldl (visit l) w).marks.count false < w.marks.count false
  | [], _ => .inl rfl
  | i :: places, w => by
    rw [List.foldl_cons]
    rcases visit_eq_or_lt l w i with h | h
    · rw [h]
      exact foldl_eq_or_lt l places w
    · right
      rcases foldl_eq_or_lt l places (visit l w i) with h' | h'
      · rwa [h']
      · exact h'.trans h

/-- Looks up names until the queue is empty. A turn that marks nothing leaves a shorter queue. -/
def drain (l : Liveness) : Marking → List Bool
  | ⟨[], marks⟩ => marks
  | ⟨name :: rest, marks⟩ => drain l (look l ⟨rest, marks⟩ name)
termination_by w => (w.marks.count false, w.queue.length)
decreasing_by
  rcases foldl_eq_or_lt l (l.declaredBy name) ⟨rest, marks⟩ with h | h
  · rw [look, h]
    exact .right _ (Nat.lt_succ_self _)
  · exact .left _ _ h

end Ends

/-! ## One turn -/

section Turn

def Marked (w : Marking) (i : Nat) : Prop := w.marks[i]? = some true

theorem length_visit (l : Liveness) (w : Marking) (i : Nat) :
    (visit l w i).marks.length = w.marks.length := by
  unfold visit
  split_ifs
  · exact List.length_set
  · rfl

theorem lt_length_visit {i : Nat} {places : List Nat}
    (h : ∀ k ∈ i :: places, k < w.marks.length) :
    ∀ k ∈ places, k < (visit l w i).marks.length := fun k hk => by
  rw [length_visit]
  exact h k (List.mem_cons_of_mem _ hk)

theorem length_foldl (l : Liveness) (places : List Nat) (w : Marking) :
    (places.foldl (visit l) w).marks.length = w.marks.length := by
  induction places generalizing w with
  | nil => rfl
  | cons i places ih => rw [List.foldl_cons, ih, length_visit]

theorem getElem?_eq_false_iff {i : Nat} (hi : i < w.marks.length) :
    w.marks[i]? = some false ↔ ¬ w.Marked i := by
  unfold Marked
  rw [List.getElem?_eq_getElem hi]
  simp

theorem marked_visit {i j : Nat} (hi : i < w.marks.length) :
    (visit l w i).Marked j ↔ w.Marked j ∨ j = i := by
  unfold visit
  split_ifs with h
  · by_cases hj : j = i
    · subst hj
      simp [Marked, hi]
    · simp [Marked, List.getElem?_set_ne (Ne.symm hj), hj]
  · have hmarked : w.Marked i := not_not.1 fun hn => h ((getElem?_eq_false_iff hi).2 hn)
    exact ⟨.inl, fun hj => hj.elim id fun hj => hj ▸ hmarked⟩

theorem mem_queue_visit {i : Nat} (hi : i < w.marks.length) {n : String} :
    n ∈ (visit l w i).queue ↔
      n ∈ w.queue ∨ ¬ w.Marked i ∧ ∃ b, l.bindings[i]? = some b ∧ n ∈ b.references := by
  rw [← getElem?_eq_false_iff hi]
  unfold visit
  split_ifs with h
  · rcases l.bindings[i]? with _ | b <;> simp [h]
  · simp [h]

theorem marked_foldl {j : Nat} : ∀ {places : List Nat} {w : Marking},
    (∀ i ∈ places, i < w.marks.length) →
      ((places.foldl (visit l) w).Marked j ↔ w.Marked j ∨ j ∈ places)
  | [], _, _ => by simp
  | i :: places, w, h => by
    rw [List.foldl_cons, marked_foldl (lt_length_visit h), marked_visit (h i List.mem_cons_self),
      or_assoc, List.mem_cons]

/-- Visiting places queues what the bindings need that are marked by it. -/
theorem mem_queue_foldl {n : String} : ∀ {places : List Nat} {w : Marking},
    (∀ i ∈ places, i < w.marks.length) → (n ∈ (places.foldl (visit l) w).queue ↔
      n ∈ w.queue ∨ ∃ i ∈ places, ¬ w.Marked i ∧ ∃ b, l.bindings[i]? = some b ∧ n ∈ b.references)
  | [], _, _ => by simp
  | i :: places, w, h => by
    have hi := h i List.mem_cons_self
    rw [List.foldl_cons, mem_queue_foldl (lt_length_visit h), mem_queue_visit hi, or_assoc]
    simp only [marked_visit hi, not_or, List.exists_mem_cons_iff]
    -- the binding visited first is not visited again
    constructor
    · rintro (hn | hn | ⟨k, hk, ⟨hmarked, -⟩, hb⟩)
      · exact .inl hn
      · exact .inr (.inl hn)
      · exact .inr (.inr ⟨k, hk, hmarked, hb⟩)
    · rintro (hn | hn | ⟨k, hk, hmarked, hb⟩)
      · exact .inl hn
      · exact .inr (.inl hn)
      · by_cases hki : k = i
        · exact .inr (.inl (hki ▸ ⟨hmarked, hb⟩))
        · exact .inr (.inr ⟨k, hk, ⟨hmarked, hki⟩, hb⟩)

end Turn

/-! ## What holds between two turns -/

section Invariant

/-- The names that are looked up: seeds, and those used in live bindings. -/
def Needed (l : Liveness) (n : String) : Prop := n ∈ l.seeds ∨ ∃ a ∈ l.marked, n ∈ a.references

/-- Marked bindings are live and names that wait are needed. What is a seed or is used in a marked
binding waits, or its bindings are marked. -/
structure Invariant (l : Liveness) (w : Marking) : Prop where
  length : w.marks.length = l.bindings.length
  live : ∀ i b, l.bindings[i]? = some b → w.Marked i → b ∈ l.marked
  waiting : ∀ n ∈ w.queue, Needed l n
  met : ∀ n, (n ∈ l.seeds ∨ ∃ i b, l.bindings[i]? = some b ∧ w.Marked i ∧ n ∈ b.references) →
    n ∈ w.queue ∨ ∀ i ∈ l.declaredBy n, w.Marked i

theorem Needed.live {n : String} (h : Needed l n) {b : Binding} (hb : b ∈ l.bindings)
    (hn : n ∈ b.names) : b ∈ l.marked := by
  rcases h with hseed | ⟨a, ha, hna⟩
  · exact l.marked_closed.seeds b hb n hn hseed
  · exact l.marked_closed.uses a ha n hna b hb hn

/-- At first nothing is marked, and the seeds are to be looked at. -/
theorem invariant_seeds (l : Liveness) :
    Invariant l ⟨l.seeds, List.replicate l.bindings.length false⟩ := by
  have hnone : ∀ i, ¬ Marked ⟨l.seeds, List.replicate l.bindings.length false⟩ i := by
    intro i hi
    have hmem : true ∈ List.replicate l.bindings.length false := List.mem_of_getElem? hi
    simp at hmem
  refine ⟨List.length_replicate, fun i b _ hi => (hnone i hi).elim, fun n hn => .inl hn, ?_⟩
  rintro n (hn | ⟨i, b, -, hi, -⟩)
  · exact .inl hn
  · exact (hnone i hi).elim

/-- A turn marks the bindings of the name in front, and what they use waits from then on. -/
theorem Invariant.look {name : String} {rest : List String} {marks : List Bool}
    (h : Invariant l ⟨name :: rest, marks⟩) : Invariant l (look l ⟨rest, marks⟩ name) := by
  have hplaces : ∀ i ∈ l.declaredBy name, i < marks.length := fun i hi => by
    obtain ⟨b, hb, -⟩ := mem_declaredBy.1 hi
    rw [h.length]
    exact (List.getElem?_eq_some_iff.1 hb).1
  have hmarked : ∀ i, (Marking.look l ⟨rest, marks⟩ name).Marked i
      ↔ Marked ⟨name :: rest, marks⟩ i ∨ i ∈ l.declaredBy name := fun i => marked_foldl hplaces
  have hqueue : ∀ n, n ∈ (Marking.look l ⟨rest, marks⟩ name).queue ↔ n ∈ rest
      ∨ ∃ i ∈ l.declaredBy name, ¬ Marked ⟨name :: rest, marks⟩ i
          ∧ ∃ b, l.bindings[i]? = some b ∧ n ∈ b.references := fun n => mem_queue_foldl hplaces
  have hlive : ∀ i ∈ l.declaredBy name, ∀ b, l.bindings[i]? = some b → b ∈ l.marked := by
    intro i hi b hb
    obtain ⟨b', hb', hname⟩ := mem_declaredBy.1 hi
    cases hb.symm.trans hb'
    exact (h.waiting name List.mem_cons_self).live (List.mem_of_getElem? hb) hname
  refine ⟨(length_foldl l _ _).trans h.length, fun i b hb hi => ?_, fun n hn => ?_, fun n hn => ?_⟩
  · exact ((hmarked i).1 hi).elim (h.live i b hb) fun hi => hlive i hi b hb
  · rcases (hqueue n).1 hn with hn | ⟨i, hi, -, b, hb, hn⟩
    · exact h.waiting n (List.mem_cons_of_mem _ hn)
    · exact .inr ⟨b, hlive i hi b hb, hn⟩
  · -- the name in front is done with; all others were met before, or are used in a new mark
    by_cases hname : n = name
    · exact .inr fun i hi => (hmarked i).2 (.inr (hname ▸ hi))
    have hbefore : (n ∈ name :: rest ∨ ∀ i ∈ l.declaredBy n, Marked ⟨name :: rest, marks⟩ i) →
        n ∈ (Marking.look l ⟨rest, marks⟩ name).queue
          ∨ ∀ i ∈ l.declaredBy n, (Marking.look l ⟨rest, marks⟩ name).Marked i := by
      rintro (hmem | hall)
      · exact .inl ((hqueue n).2 (.inl ((List.mem_cons.1 hmem).resolve_left hname)))
      · exact .inr fun i hi => (hmarked i).2 (.inl (hall i hi))
    rcases hn with hseed | ⟨i, b, hb, hi, hn⟩
    · exact hbefore (h.met n (.inl hseed))
    · by_cases hold : Marked ⟨name :: rest, marks⟩ i
      · exact hbefore (h.met n (.inr ⟨i, b, hb, hold, hn⟩))
      · have hnew := ((hmarked i).1 hi).resolve_left hold
        exact .inl ((hqueue n).2 (.inr ⟨i, hnew, hold, b, hb, hn⟩))

/-- With an empty queue the marked bindings are closed under use, so every live one is among
them. -/
theorem Invariant.marks_eq {marks : List Bool} (h : Invariant l ⟨[], marks⟩) :
    marks = l.bindings.map fun b => decide (b ∈ l.marked) := by
  -- the bindings that are marked wherever they stand
  have hclosed : l.Closed {b | ∃ i : Nat, l.bindings[i]? = some b
      ∧ ∀ i : Nat, l.bindings[i]? = some b → Marked ⟨[], marks⟩ i} := by
    have hall : ∀ n, (n ∈ l.seeds ∨ ∃ i b, l.bindings[i]? = some b
        ∧ Marked ⟨[], marks⟩ i ∧ n ∈ b.references) → ∀ i b, l.bindings[i]? = some b →
          n ∈ b.names → Marked ⟨[], marks⟩ i := fun n hn i b hb hbn =>
      (h.met n hn).resolve_left List.not_mem_nil i (mem_declaredBy.2 ⟨b, hb, hbn⟩)
    refine ⟨fun b hb n hn hseed => ?_, ?_⟩
    · obtain ⟨i, hi⟩ := List.getElem?_of_mem hb
      exact ⟨i, hi, fun i hi => hall n (.inl hseed) i b hi hn⟩
    · rintro a ⟨k, hk, ha⟩ n hn b hb hbn
      obtain ⟨i, hi⟩ := List.getElem?_of_mem hb
      exact ⟨i, hi, fun i hi => hall n (.inr ⟨k, a, hk, ha k hk, hn⟩) i b hi hbn⟩
  refine List.ext_getElem (by simpa using h.length) fun i hi hi' => ?_
  have hb : i < l.bindings.length := by simpa using hi'
  have hget : l.bindings[i]? = some l.bindings[i] := List.getElem?_eq_getElem hb
  have hiff : marks[i] = true ↔ l.bindings[i] ∈ l.marked := by
    refine ⟨fun hm => h.live i _ hget ?_, fun hm => ?_⟩
    · exact (List.getElem?_eq_getElem hi).trans (congrArg some hm)
    · obtain ⟨-, -, hall⟩ := l.marked_subset hclosed hm
      exact Option.some.inj ((List.getElem?_eq_getElem hi).symm.trans (hall i hget))
  rw [List.getElem_map, Bool.eq_iff_iff, hiff, decide_eq_true_eq]

theorem Invariant.drain_eq (h : Invariant l w) :
    drain l w = l.bindings.map fun b => decide (b ∈ l.marked) := by
  fun_induction drain l w with
  | case1 marks => exact h.marks_eq
  | case2 name rest marks ih => exact ih h.look

end Invariant

end Marking

/-- The marks of the bindings when the queue of names is empty. -/
def marks (l : Liveness) : List Bool :=
  Marking.drain l ⟨l.seeds, List.replicate l.bindings.length false⟩

/-- The queue marks the bindings that the search by levels finds. -/
theorem marks_eq (l : Liveness) : l.marks = l.bindings.map fun b => decide (b ∈ l.marked) :=
  (Marking.invariant_seeds l).drain_eq

/-- The flags of a statement are the marks of its bindings. -/
theorem flags_eq_marks (l : Liveness) (i : Nat) :
    l.flags i = ((l.bindings.zip l.marks).filter (·.1.statement == i)).map (·.2) := by
  rw [marks_eq, flags_eq, ← List.map_prod_left_eq_zip, List.filter_map, List.map_map]
  rfl

end ZodGen.Script.Liveness
