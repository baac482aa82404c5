import Mathlib.Data.List.Cycle
import Mathlib.Order.Bounds.Defs
import ZodGen.Script.Liveness

/-!
# The live bindings are the least closed set

A set of bindings is closed when it has every binding of a seed, and with a binding every binding
of a name used in it. The search of `reach` goes over names and drops the bindings it has met, but
what it finds is closed (`references_subset_reach`) and lies in every closed set (`reach_subset`),
so the marked bindings are the least closed set (`marked_isLeast`).
-/

namespace ZodGen.Script

theorem Binding.declares_iff {b : Binding} {names : List String} :
    b.declares names = true ↔ ∃ n ∈ b.names, n ∈ names := by
  simp [declares, List.any_eq_true]

namespace Liveness

section Reach

variable {names : List String} {pending : List Binding}

theorem mem_hit {b : Binding} : b ∈ hit names pending ↔ b ∈ pending ∧ b.declares names := by
  simp [hit, List.mem_filter]

theorem mem_missed {b : Binding} : b ∈ missed names pending ↔ b ∈ pending ∧ ¬ b.declares names := by
  simp [missed, List.mem_filter]

theorem subset_reach (names : List String) (pending : List Binding) :
    names ⊆ reach names pending := by
  rw [reach]
  split_ifs
  · exact fun _ h => h
  · exact List.subset_append_left _ _

/-- What a binding of a reached name uses is reached. -/
theorem references_subset_reach (names : List String) (pending : List Binding) {b : Binding}
    (hb : b ∈ pending) (hd : b.declares (reach names pending)) :
    b.references ⊆ reach names pending := by
  rw [reach] at hd ⊢
  split_ifs at hd ⊢ with h
  · have : b ∈ hit names pending := mem_hit.2 ⟨hb, hd⟩
    rw [h] at this
    simp at this
  · intro n hn
    refine List.mem_append_right _ ?_
    by_cases hh : b.declares names = true
    · exact subset_reach _ _ (List.mem_flatMap.2 ⟨b, mem_hit.2 ⟨hb, hh⟩, hn⟩)
    · -- A binding that none of the names hits is still pending in the rest of the search.
      obtain ⟨k, hk, hkm⟩ := Binding.declares_iff.1 hd
      have hrest : b.declares
          (reach ((hit names pending).flatMap (·.references)) (missed names pending)) := by
        refine Binding.declares_iff.2 ⟨k, hk, ?_⟩
        rcases List.mem_append.1 hkm with hkm | hkm
        · exact absurd (Binding.declares_iff.2 ⟨k, hk, hkm⟩) hh
        · exact hkm
      exact references_subset_reach _ _ (mem_missed.2 ⟨hb, hh⟩) hrest hn
termination_by pending.length
decreasing_by exact length_missed_lt h

/-- Names that hold the first ones, and with a name what its bindings use, hold all reached
names. -/
theorem reach_subset {P : String → Prop} (names : List String) (pending : List Binding)
    (hn : ∀ n ∈ names, P n)
    (hp : ∀ b ∈ pending, (∃ n ∈ b.names, P n) → ∀ n ∈ b.references, P n) :
    ∀ n ∈ reach names pending, P n := by
  rw [reach]
  split_ifs with h
  · exact hn
  · intro n hm
    rcases List.mem_append.1 hm with hm | hm
    · exact hn n hm
    · refine reach_subset _ _ (fun k hk => ?_) (fun b hb => hp b (mem_missed.1 hb).1) n hm
      obtain ⟨b, hb, hk⟩ := List.mem_flatMap.1 hk
      obtain ⟨hbp, hbd⟩ := mem_hit.1 hb
      obtain ⟨m, hm, hmn⟩ := Binding.declares_iff.1 hbd
      exact hp b hbp ⟨m, hm, hn m hmn⟩ k hk
termination_by pending.length
decreasing_by exact length_missed_lt h

end Reach

/-- The bindings whose flag is set. -/
def marked (l : Liveness) : Set Binding := {b | b ∈ l.bindings ∧ b.declares l.reached}

instance (l : Liveness) : DecidablePred (· ∈ l.marked) :=
  fun b => inferInstanceAs (Decidable (b ∈ l.bindings ∧ b.declares l.reached))

theorem flags_eq (l : Liveness) (i : Nat) :
    l.flags i = (l.bindings.filter (·.statement == i)).map fun b => decide (b ∈ l.marked) := by
  refine List.map_congr_left fun b hb => ?_
  have hm : b ∈ l.marked ↔ b.declares l.reached :=
    ⟨fun h => h.2, fun h => ⟨(List.mem_filter.1 hb).1, h⟩⟩
  simp [hm]

/-- A set with every binding of a seed, and with a binding every binding of a name used in it. -/
structure Closed (l : Liveness) (L : Set Binding) : Prop where
  seeds : ∀ b ∈ l.bindings, ∀ n ∈ b.names, n ∈ l.seeds → b ∈ L
  uses : ∀ a ∈ L, ∀ n ∈ a.references, ∀ b ∈ l.bindings, n ∈ b.names → b ∈ L

/-- The first binding uses a name of the second. -/
def Uses (l : Liveness) (a b : Binding) : Prop :=
  a ∈ l.bindings ∧ b ∈ l.bindings ∧ ∃ n ∈ a.references, n ∈ b.names

/-- A chain of uses leads from a binding of a seed to this one. -/
def SeedReaches (l : Liveness) (b : Binding) : Prop :=
  ∃ a ∈ l.bindings, (∃ n ∈ a.names, n ∈ l.seeds) ∧ Relation.ReflTransGen l.Uses a b

variable (l : Liveness)

/-- The bindings of seeds are marked, and so are those that marked bindings use. -/
theorem marked_closed : l.Closed l.marked where
  seeds b hb n hn hs := ⟨hb, Binding.declares_iff.2 ⟨n, hn, subset_reach _ _ hs⟩⟩
  uses := by
    rintro a ⟨ha, hd⟩ n hn b hb hbn
    have hr : n ∈ l.reached := references_subset_reach _ _ ha hd hn
    exact ⟨hb, Binding.declares_iff.2 ⟨n, hbn, hr⟩⟩

/-- What is marked lies in every set that is closed in this way. -/
theorem marked_subset {L : Set Binding} (hL : l.Closed L) : l.marked ⊆ L := by
  rintro b ⟨hb, hd⟩
  obtain ⟨n, hn, hr⟩ := Binding.declares_iff.1 hd
  have hreach : ∀ k ∈ l.reached, k ∈ l.seeds ∨ ∃ a ∈ L, k ∈ a.references := by
    refine reach_subset _ _ (fun k hk => .inl hk) ?_
    rintro a ha ⟨m, hm, hs⟩ k hk
    refine .inr ⟨a, ?_, hk⟩
    rcases hs with hs | ⟨a', ha', hma'⟩
    · exact hL.seeds a ha m hm hs
    · exact hL.uses a' ha' m hma' a ha hm
  rcases hreach n hr with hs | ⟨a, ha, hna⟩
  · exact hL.seeds b hb n hn hs
  · exact hL.uses a ha n hna b hb hn

theorem marked_of_uses {a b : Binding} (h : l.Uses a b) (ha : a ∈ l.marked) : b ∈ l.marked := by
  obtain ⟨-, hb, n, hn, hnb⟩ := h
  exact l.marked_closed.uses a ha n hn b hb hnb

theorem marked_of_reflTransGen {a b : Binding} (h : Relation.ReflTransGen l.Uses a b)
    (ha : a ∈ l.marked) : b ∈ l.marked := by
  induction h with
  | refl => exact ha
  | tail _ hu ih => exact l.marked_of_uses hu ih

/-- A binding is marked exactly if some seed leads to it by uses. -/
theorem marked_iff_seedReaches {b : Binding} : b ∈ l.marked ↔ l.SeedReaches b := by
  refine ⟨fun h => ?_, ?_⟩
  · have hc : l.Closed {b | l.SeedReaches b} := by
      refine ⟨fun b hb n hn hs => ⟨b, hb, ⟨n, hn, hs⟩, .refl⟩, ?_⟩
      rintro a ⟨s, hs, hseed, hsa⟩ n hn b hb hbn
      have ha : a ∈ l.bindings := by
        rcases Relation.ReflTransGen.cases_tail hsa with rfl | ⟨c, -, hca⟩
        · exact hs
        · exact hca.2.1
      exact ⟨s, hs, hseed, hsa.tail ⟨ha, hb, n, hn, hbn⟩⟩
    exact l.marked_subset hc h
  · rintro ⟨a, ha, ⟨n, hn, hs⟩, hab⟩
    exact l.marked_of_reflTransGen hab (l.marked_closed.seeds a ha n hn hs)

/-- On a cycle of uses every binding reaches every other. -/
theorem marked_of_cycle {c : Cycle Binding} (hc : c.Chain l.Uses) {a b : Binding} (ha : a ∈ c)
    (hb : b ∈ c) (hm : a ∈ l.marked) : b ∈ l.marked := by
  have ht : c.Chain (Relation.TransGen l.Uses) := hc.imp fun _ _ => .single
  have hab := Cycle.chain_iff_pairwise.1 ht a ha b hb
  exact l.marked_of_reflTransGen hab.to_reflTransGen hm

/-- A binding on a cycle of uses is marked exactly if a seed leads to some binding of the cycle. -/
theorem cycle_marked_iff {c : Cycle Binding} (hc : c.Chain l.Uses) {b : Binding} (hb : b ∈ c) :
    b ∈ l.marked ↔ ∃ a ∈ c, l.SeedReaches a := by
  refine ⟨fun h => ⟨b, hb, l.marked_iff_seedReaches.1 h⟩, ?_⟩
  rintro ⟨a, ha, hs⟩
  exact l.marked_of_cycle hc ha hb (l.marked_iff_seedReaches.2 hs)

/-- The bindings of a script that are marked are the least closed set, and they are those that are
flagged. So what a seed or a marked binding names is marked, and the bindings on a cycle are marked
together, when a seed reaches one of them. -/
theorem marked_isLeast (p : Program) :
    IsLeast {L | (ofProgram p).Closed L} (ofProgram p).marked
      ∧ (∀ i, (ofProgram p).flags i = ((ofProgram p).bindings.filter (·.statement == i)).map
          fun b => decide (b ∈ (ofProgram p).marked))
      ∧ (∀ b ∈ (ofProgram p).bindings, b ∉ (ofProgram p).marked → ∀ n ∈ b.names,
          n ∉ (ofProgram p).seeds ∧ ∀ a ∈ (ofProgram p).marked, n ∉ a.references)
      ∧ ∀ c : Cycle Binding, c.Chain (ofProgram p).Uses → ∀ b ∈ c,
          (b ∈ (ofProgram p).marked ↔ ∃ a ∈ c, (ofProgram p).SeedReaches a) := by
  refine ⟨⟨marked_closed _, fun L hL => marked_subset _ hL⟩, flags_eq _,
    fun b hb hd n hn => ⟨?_, ?_⟩, fun c hc b hb => cycle_marked_iff _ hc hb⟩
  · exact fun hs => hd ((marked_closed _).seeds b hb n hn hs)
  · exact fun a ha hna => hd ((marked_closed _).uses a ha n hna b hb hn)

end Liveness

end ZodGen.Script
