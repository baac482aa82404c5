import Mathlib.Data.List.Basic
import ZodGen.Schema.Compile

/-!
# The references in a value

A reference counts in a value wherever it stands in it, so what is found in a value by a key, an
index or a walk has no references that the value lacks (`refs_subset_of_walk?`).
-/

namespace ZodGen

namespace Value

theorem refs_subset_of_mem_items {v : Value} :
    ∀ {items : List Value}, v ∈ items → v.refs ⊆ refsOfItems items
  | w :: items, h => by
    rw [refsOfItems]
    rcases List.mem_cons.1 h with rfl | h
    · exact List.subset_append_left _ _
    · exact List.Subset.trans (refs_subset_of_mem_items h) (List.subset_append_right _ _)

theorem refsOfMembers_cons (key : String) (v : Value) (ms : List (String × Value)) :
    v.refs ++ refsOfMembers ms ⊆ refsOfMembers ((key, v) :: ms) := by
  rw [refsOfMembers.eq_def ((key, v) :: ms)]
  simp only []
  split
  · simp [refs]
  · exact List.Subset.refl _

theorem refs_subset_of_mem_members {key : String} {v : Value} :
    ∀ {ms : List (String × Value)}, (key, v) ∈ ms → v.refs ⊆ refsOfMembers ms
  | m :: ms, h => by
    refine List.Subset.trans ?_ (refsOfMembers_cons m.1 m.2 ms)
    rcases List.mem_cons.1 h with rfl | h
    · exact List.subset_append_left _ _
    · exact List.Subset.trans (refs_subset_of_mem_members h) (List.subset_append_right _ _)

theorem mem_refsOfMembers {r : String} :
    ∀ {ms : List (String × Value)}, ("$ref", .str r) ∈ ms → r ∈ refsOfMembers ms
  | m :: ms, h => by
    rcases List.mem_cons.1 h with rfl | h
    · simp [refsOfMembers]
    · exact refsOfMembers_cons m.1 m.2 ms (List.mem_append_right _ (mem_refsOfMembers h))

/-- The references of an object are its own and those of its members. -/
theorem mem_refsOfMembers_iff {r : String} : ∀ {ms : List (String × Value)},
    r ∈ refsOfMembers ms ↔ ("$ref", .str r) ∈ ms ∨ ∃ m ∈ ms, r ∈ m.2.refs
  | [] => by simp [refsOfMembers]
  | (key, v) :: ms => by
    have ih : r ∈ refsOfMembers ms ↔ _ := mem_refsOfMembers_iff
    rw [refsOfMembers.eq_def]
    simp only [List.mem_append, ih, List.mem_cons, exists_eq_or_imp]
    split
    · simp [refs]
      tauto
    · rename_i hnot
      have : ("$ref", Value.str r) ≠ (key, v) := fun he => by
        cases he
        exact hnot r rfl rfl
      simp [this]
      tauto

theorem refs_subset_of_get? {v w : Value} {key : String} (h : v.get? key = some w) :
    w.refs ⊆ v.refs := by
  cases v with
  | obj ms =>
    rw [refs]
    exact refs_subset_of_mem_members (Schema.mem_of_get? h)
  | _ => simp [get?] at h

theorem get?_of_arr? {v : Value} {key : String} {items : List Value}
    (h : v.arr? key = some items) : v.get? key = some (.arr items) := by
  obtain ⟨w, hw, ha⟩ := Option.bind_eq_some_iff.1 h
  cases w <;> simp_all [asArr?]

theorem get?_of_obj? {v : Value} {key : String} {ms : Assoc Value} (h : v.obj? key = some ms) :
    v.get? key = some (.obj ms) := by
  obtain ⟨w, hw, ha⟩ := Option.bind_eq_some_iff.1 h
  cases w <;> simp_all [asObj?]

theorem get?_of_str? {v : Value} {key s : String} (h : v.str? key = some s) :
    v.get? key = some (.str s) := by
  obtain ⟨w, hw, ha⟩ := Option.bind_eq_some_iff.1 h
  cases w <;> simp_all [asStr?]

theorem refsOfItems_subset_of_arr? {v : Value} {key : String} {items : List Value}
    (h : v.arr? key = some items) : refsOfItems items ⊆ v.refs := by
  have := refs_subset_of_get? (get?_of_arr? h)
  rwa [refs] at this

theorem refsOfMembers_subset_of_obj? {v : Value} {key : String} {ms : Assoc Value}
    (h : v.obj? key = some ms) : refsOfMembers ms ⊆ v.refs := by
  have := refs_subset_of_get? (get?_of_obj? h)
  rwa [refs] at this

/-- A value's own reference is one of the references in it. -/
theorem mem_refs_of_ref? {v : Value} {r : String} (h : v.ref? = some r) : r ∈ v.refs := by
  have hg := get?_of_str? h
  cases v with
  | obj ms =>
    rw [refs]
    exact mem_refsOfMembers (Schema.mem_of_get? hg)
  | _ => simp [get?] at hg

end Value

namespace Reference

theorem refs_subset_of_step? {v w : Value} {key : String} (h : step? v key = some w) :
    w.refs ⊆ v.refs := by
  cases v with
  | obj ms => exact Value.refs_subset_of_get? (v := .obj ms) h
  | arr items =>
    obtain ⟨i, -, hi⟩ := Option.bind_eq_some_iff.1 h
    rw [Value.refs]
    exact Value.refs_subset_of_mem_items (List.mem_of_getElem? hi)
  | _ => simp [step?] at h

/-- What a path leads to has no references but those of the value it starts from. -/
theorem refs_subset_of_walk? : ∀ {v w : Value} {ks : List String}, walk? v ks = some w →
    w.refs ⊆ v.refs
  | v, w, [], h => by
    simp only [walk?, Option.some.injEq] at h
    rw [h]
    exact List.Subset.refl _
  | v, w, key :: ks, h => by
    obtain ⟨u, hu, hw⟩ := Option.bind_eq_some_iff.1 h
    exact List.Subset.trans (refs_subset_of_walk? hw) (refs_subset_of_step? hu)

theorem resolve_eq_ok {root v : Value} {r : String} :
    resolve root r = .ok v ↔ ∃ ks, keys r = .ok ks ∧ walk? root ks = some v := by
  unfold resolve
  rcases keys r with e | ks
  · simp [bind, Except.bind]
  · rcases hw : walk? root ks with _ | w <;> simp [bind, Except.bind, fail, hw]

theorem refs_subset_of_resolve {root v : Value} {r : String} (h : resolve root r = .ok v) :
    v.refs ⊆ root.refs := by
  obtain ⟨ks, -, hw⟩ := resolve_eq_ok.1 h
  exact refs_subset_of_walk? hw

section Closed

variable {R : String → Prop} {root : Value}

/-- A set of references that lead to values with no other references. -/
def Closed (R : String → Prop) (root : Value) : Prop :=
  ∀ r v, R r → resolve root r = .ok v → ∀ s ∈ v.refs, R s

/-- All references of a document together lead to no others. -/
theorem closed_refs (root : Value) : Closed (· ∈ root.refs) root :=
  fun _ _ _ hv _ hs => refs_subset_of_resolve hv hs

/-- Following references does not lead out of a set that is closed under resolving. -/
theorem refs_of_follow (h : Closed R root) (pending : List String) (v w : Value)
    (hv : ∀ r ∈ v.refs, R r) (hw : follow root pending v = .ok w) : ∀ r ∈ w.refs, R r := by
  rw [follow] at hw
  rcases hr : v.ref? with _ | r <;> simp only [hr] at hw
  · cases hw
    exact hv
  · split_ifs at hw with hm
    · rcases hres : resolve root r with _ | next <;> simp only [hres, reduceCtorEq] at hw
      exact refs_of_follow h _ next w
        (h r next (hv r (Value.mem_refs_of_ref? hr)) hres) hw
    · simp [fail] at hw
termination_by pending.length
decreasing_by exact length_others_lt hm

theorem refs_of_resolveObject (h : Closed R root) {v w : Value} (hv : ∀ r ∈ v.refs, R r)
    (hw : resolveObject root v = .ok w) : ∀ r ∈ w.refs, R r :=
  refs_of_follow h _ v w hv hw

end Closed

theorem mem_others {r s : String} {pending : List String} :
    s ∈ others r pending ↔ s ∈ pending ∧ s ≠ r := by
  simp [others]

end Reference

end ZodGen
