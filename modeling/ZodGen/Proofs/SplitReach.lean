import Mathlib.Data.List.Basic
import ZodGen.Document.Split

/-!
# What a path reaches

The search takes components from the pending ones and queues each that it takes, so once the queue
is empty every value that was read is settled: a reference in it that names a component names one
that has been taken. What a path item reaches is therefore closed under references
(`unreached_ended`).
-/

namespace ZodGen.Document

open Reference (Target componentTarget)

namespace Components

theorem find?_without (t u : Target) (cs : Components) :
    find? u (without t cs) = if u = t then none else find? u cs := by
  unfold find? without
  rw [List.find?_filter]
  split_ifs with h
  · subst h
    simp
  · congr 1
    congr 1
    funext m
    by_cases hm : m.1 = u
    · simp [hm, h]
    · simp [hm]

theorem without_sublist (t : Target) (cs : Components) : (without t cs).Sublist cs :=
  List.filter_sublist

end Components

namespace Search

/-- A later state of a search: it has taken components from the pending ones and queued them. -/
structure Extends (s u : Search) : Prop where
  pending_sublist : u.pending.Sublist s.pending
  queue_subset : s.queue ⊆ u.queue
  taken : ∀ t, u.pending.find? t = s.pending.find? t
    ∨ u.pending.find? t = none ∧ ∃ v ∈ u.queue, s.pending.find? t = some v

theorem Extends.refl (s : Search) : Extends s s :=
  ⟨List.Sublist.refl _, List.Subset.refl _, fun _ => .inl rfl⟩

theorem Extends.trans {s u w : Search} (h : Extends s u) (h' : Extends u w) : Extends s w := by
  refine ⟨h'.pending_sublist.trans h.pending_sublist,
    List.Subset.trans h.queue_subset h'.queue_subset, fun t => ?_⟩
  rcases h.taken t with ht | ⟨hn, v, hv, hs⟩
  · rw [← ht]
    exact h'.taken t
  · refine .inr ⟨?_, v, h'.queue_subset hv, hs⟩
    rcases h'.taken t with ht' | ⟨hn', -⟩
    · rw [ht', hn]
    · exact hn'

theorem extends_reach (s : Search) (t : Target) : Extends s (s.reach t) := by
  unfold reach
  split
  · rename_i v hv
    refine ⟨Components.without_sublist t _, List.subset_append_left _ _, fun u => ?_⟩
    simp only [Components.find?_without]
    split_ifs with hu
    · exact .inr ⟨rfl, v, by simp, by rw [hu, hv]⟩
    · exact .inl rfl
  · exact Extends.refl s

theorem find?_reach (s : Search) (t : Target) : (s.reach t).pending.find? t = none := by
  unfold reach
  split
  · simp [Components.find?_without]
  · assumption

section Invariant

variable {all : Components} {T : Target → Prop} {I : Search → Prop}
  (hI : ∀ s t, T t → I s → I (s.reach t))

include hI

/-- What reaching one component keeps, reaching all that references lead to keeps. -/
theorem reachAll_invariant : ∀ {rs : List String} {s u : Search},
    (∀ r ∈ rs, ∀ t, componentTarget r = .ok (some t) → T t) → I s → reachAll all rs s = .ok u → I u
  | [], s, u, _, hs, hu => by
    cases hu
    exact hs
  | r :: rs, s, u, hrs, hs, hu => by
    obtain ⟨hr, hrs⟩ := List.forall_mem_cons.1 hrs
    simp only [reachAll] at hu
    split at hu
    · simp at hu
    · exact reachAll_invariant hrs hs hu
    · rename_i t ht
      split_ifs at hu
      · simp [fail] at hu
      · exact reachAll_invariant hrs (hI s t (hr t ht) hs) hu

theorem foldl_reach_invariant {α : Type} (f : α → Target) : ∀ {xs : List α} {s : Search},
    (∀ x ∈ xs, T (f x)) → I s → I (xs.foldl (fun s x => s.reach (f x)) s)
  | [], _, _, hs => hs
  | x :: xs, s, hxs, hs => by
    obtain ⟨hx, hxs⟩ := List.forall_mem_cons.1 hxs
    rw [List.foldl_cons]
    exact foldl_reach_invariant f hxs (hI s (f x) hx hs)

end Invariant

/-- Nothing is taken back. -/
theorem Extends.find?_eq_none {s u : Search} (h : Extends s u) {t : Target}
    (ht : s.pending.find? t = none) : u.pending.find? t = none := by
  rcases h.taken t with hu | ⟨hu, -⟩
  · rw [hu, ht]
  · exact hu

/-- Every reference in a value can be read, and a component it names is there and not left. -/
def Settled (all left : Components) (rs : List String) : Prop :=
  ∀ r ∈ rs, ∃ o, componentTarget r = .ok o
    ∧ ∀ t, o = some t → (all.find? t).isSome ∧ left.find? t = none

theorem settled_cons {all left : Components} {r : String} {rs : List String} {o : Option Target}
    (ho : componentTarget r = .ok o)
    (ht : ∀ t, o = some t → (all.find? t).isSome ∧ left.find? t = none)
    (h : Settled all left rs) : Settled all left (r :: rs) :=
  List.forall_mem_cons.2 ⟨⟨o, ho, ht⟩, h⟩

/-- After the references of a value are reached they are settled, and stay so. -/
theorem reachAll_settled {all : Components} : ∀ {rs : List String} {s u : Search},
    reachAll all rs s = .ok u → Extends s u ∧ Settled all u.pending rs
  | [], s, u, h => by
    cases h
    exact ⟨Extends.refl _, by simp [Settled]⟩
  | r :: rs, s, u, h => by
    simp only [reachAll] at h
    split at h
    · simp at h
    · rename_i ho
      obtain ⟨he, hs⟩ := reachAll_settled h
      exact ⟨he, settled_cons ho (by simp) hs⟩
    · rename_i t ho
      split_ifs at h with ha
      · simp [fail] at h
      · obtain ⟨he, hs⟩ := reachAll_settled h
        refine ⟨(extends_reach s t).trans he, settled_cons ho (fun t' ht' => ?_) hs⟩
        cases ht'
        exact ⟨by simpa [Option.isSome_iff_ne_none] using ha, he.find?_eq_none (find?_reach s t)⟩

/-- What is left when the search ends from a state: the values queued in it are settled, and so is
every component taken since. -/
structure Ended (all : Components) (s : Search) (left : Components) : Prop where
  sublist : left.Sublist s.pending
  taken : ∀ t, s.pending.find? t = none → left.find? t = none
  queued : ∀ v ∈ s.queue, Settled all left v.refs
  settled : ∀ t v, s.pending.find? t = some v → left.find? t = none → Settled all left v.refs

theorem Ended.of_extends {all left : Components} {s u : Search} (h : Extends s u)
    (hu : Ended all u left) : Ended all s left := by
  refine ⟨hu.sublist.trans h.pending_sublist, fun t ht => hu.taken t (h.find?_eq_none ht),
    fun v hv => hu.queued v (h.queue_subset hv), fun t v hv hl => ?_⟩
  rcases h.taken t with ht | ⟨-, w, hw, hs⟩
  · exact hu.settled t v (ht.trans hv) hl
  · obtain rfl : v = w := Option.some.inj (hv.symm.trans hs)
    exact hu.queued v hw

/-- By induction on the search: the components that a value leads to are queued, so they are read
before the end. -/
theorem ended_run (all pending : Components) (queue : List Value) {left : Components}
    (h : run all pending queue = .ok left) : Ended all ⟨pending, queue⟩ left := by
  fun_induction run all pending queue with
  | case1 pending =>
    cases h
    exact ⟨List.Sublist.refl _, fun _ ht => ht, by simp, fun t v hv hn => by simp [hv] at hn⟩
  | case2 => simp at h
  | case3 pending v rest u hu ih =>
    obtain ⟨he, hs⟩ := reachAll_settled hu
    have hend := ih h
    have hrest := hend.of_extends he
    refine ⟨hrest.sublist, hrest.taken, List.forall_mem_cons.2 ⟨fun r hr => ?_, hrest.queued⟩,
      hrest.settled⟩
    obtain ⟨o, ho, ht⟩ := hs r hr
    exact ⟨o, ho, fun t hot => ⟨(ht t hot).1, hend.taken t (ht t hot).2⟩⟩

theorem extends_foldl_reach {α : Type} (f : α → Target) (xs : List α) (s : Search) :
    Extends s (xs.foldl (fun s x => s.reach (f x)) s) :=
  foldl_reach_invariant (T := fun _ => True) (fun u t _ hu => hu.trans (extends_reach u t)) f
    (fun _ _ => trivial) (Extends.refl s)

end Search

/-- What a path item reaches is closed under references: the references in the item and in every
component that it reaches can be read, and the components they name are reached. -/
theorem unreached_ended {doc item : Value} {left : Components} (h : unreached doc item = .ok left) :
    Search.Ended (components doc) ⟨components doc, [item]⟩ left :=
  (Search.ended_run _ _ _ h).of_extends
    (Search.extends_foldl_reach (fun name => ⟨"securitySchemes", name⟩) _ _)

end ZodGen.Document
