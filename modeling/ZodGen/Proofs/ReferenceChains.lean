import Mathlib.Data.Finset.Card
import Mathlib.Data.Finset.Dedup
import Mathlib.Logic.Relation
import ZodGen.Proofs.Causes
import ZodGen.Proofs.References

/-!
# Chains of references

Behind a value with a `$ref` comes what the reference resolves to. No value has two successors
(`next_rightUnique`), so a chain ends at a value without reference, breaks off at a reference that
does not resolve, or never ends. Following it finds out which (`comesTo_resolveObject`): a reference
that is met again resolves to a value from which it was reached, so the chain is on a loop, and off
a loop no reference is met again.

Every reference of a chain stands in the first value or in the document, so the loop that remembers
the references it has taken is done after one turn for each of them and one more
(`followWithin_eq`).
-/

namespace ZodGen.Reference

open Outcome
open Relation (ReflTransGen TransGen)

variable {root v w : Value}

/-! ## Turns -/

/-- Follows a chain, with the references taken so far at hand. A turn looks at one value, and there
is no outcome when the turns do not suffice. -/
def followWithin (root : Value) : Nat → List String → Value → Option (Outcome Value)
  | 0, _, _ => none
  | turns + 1, taken, v =>
    match v.ref? with
    | none => some (.ok v)
    | some r =>
      if r ∈ taken then some (fail .circularReference r)
      else match resolve root r with
        | .ok next => followWithin root turns (r :: taken) next
        | .error e => some (.error e)

theorem card_others_lt {r : String} {pending : List String} (h : r ∈ pending) :
    (others r pending).toFinset.card < pending.toFinset.card := by
  have herase : (others r pending).toFinset = pending.toFinset.erase r := by
    ext s
    simp [mem_others, and_comm]
  rw [herase]
  exact Finset.card_erase_lt_of_mem (List.mem_toFinset.2 h)

/-- The references that are pending are those not taken. -/
theorem followWithin_eq (pending : List String) (v : Value) {taken : List String} {turns : Nat}
    (hpending : ∀ r, r ∈ v.refs ∨ r ∈ root.refs → (r ∈ pending ↔ r ∉ taken))
    (hturns : pending.toFinset.card < turns) :
    followWithin root turns taken v = some (follow root pending v) := by
  obtain ⟨turns, rfl⟩ : ∃ n, turns = n + 1 := ⟨turns - 1, by omega⟩
  fun_induction follow root pending v generalizing taken turns with
  | case1 pending v hr => simp only [followWithin, hr]
  | case2 pending v r hr hm next hres ih =>
    have hnot : r ∉ taken := (hpending r (.inl (Value.mem_refs_of_ref? hr))).1 hm
    have hcard := card_others_lt hm
    obtain ⟨turns, rfl⟩ : ∃ n, turns = n + 1 := ⟨turns - 1, by omega⟩
    rw [followWithin]
    simp only [hr, if_neg hnot, hres]
    refine ih (fun s hs => ?_) turns (by omega)
    have hroot : s ∈ root.refs := hs.elim (fun h => refs_subset_of_resolve hres h) id
    rw [mem_others, hpending s (.inr hroot), List.mem_cons, not_or, and_comm]
  | case3 pending v r hr hm e hres =>
    have hnot : r ∉ taken := (hpending r (.inl (Value.mem_refs_of_ref? hr))).1 hm
    simp only [followWithin, hr, if_neg hnot, hres]
  | case4 pending v r hr hm =>
    have htaken : r ∈ taken :=
      not_not.1 fun hnot => hm ((hpending r (.inl (Value.mem_refs_of_ref? hr))).2 hnot)
    simp only [followWithin, hr, if_pos htaken]

/-! ## Chains -/

/-- One value comes behind another in a chain. -/
def Next (root v w : Value) : Prop := ∃ r, v.ref? = some r ∧ resolve root r = .ok w

theorem next_rightUnique (root : Value) : Relator.RightUnique (Next root) := by
  rintro v w w' ⟨r, hr, hw⟩ ⟨r', hr', hw'⟩
  cases hr.symm.trans hr'
  exact Except.ok.inj (hw.symm.trans hw')

/-- Nothing comes behind a value. -/
def IsLast (root v : Value) : Prop := ∀ w, ¬ Next root v w

theorem isLast_of_ref?_none (h : v.ref? = none) : IsLast root v := by
  rintro w ⟨r, hr, -⟩
  simp [h] at hr

theorem isLast_of_resolve_error {r : String} {e : Error} (h : v.ref? = some r)
    (he : resolve root r = .error e) : IsLast root v := by
  rintro w ⟨r', hr', hw⟩
  cases h.symm.trans hr'
  simp [he] at hw

theorem IsLast.eq_of_reaches (hv : IsLast root v) (h : ReflTransGen (Next root) v w) : v = w := by
  rcases h.cases_head with h | ⟨u, hu, -⟩
  · exact h
  · exact (hv u hu).elim

/-- A chain has one last value at most. -/
theorem IsLast.unique {u u' : Value} (hu : IsLast root u) (hu' : IsLast root u')
    (h : ReflTransGen (Next root) v u) (h' : ReflTransGen (Next root) v u') : u = u' := by
  rcases ReflTransGen.total_of_right_unique (next_rightUnique root) h h' with hr | hr
  · exact hu.eq_of_reaches hr
  · exact (hu'.eq_of_reaches hr).symm

/-- A chain with no last value. -/
def Endless (root v : Value) : Prop :=
  ∃ chain : Nat → Value, chain 0 = v ∧ ∀ n, Next root (chain n) (chain (n + 1))

theorem mem_chain_of_reaches {chain : Nat → Value}
    (hchain : ∀ n, Next root (chain n) (chain (n + 1)))
    (h : ReflTransGen (Next root) (chain 0) w) : ∃ n, chain n = w := by
  induction h with
  | refl => exact ⟨0, rfl⟩
  | tail _ hnext ih =>
    obtain ⟨n, rfl⟩ := ih
    exact ⟨n + 1, next_rightUnique root (hchain n) hnext⟩

/-- A chain is endless if no value that it comes to is the last. -/
theorem endless_iff : Endless root v ↔ ∀ w, ReflTransGen (Next root) v w → ¬ IsLast root w := by
  constructor
  · rintro ⟨chain, rfl, hchain⟩ w hw hlast
    obtain ⟨n, rfl⟩ := mem_chain_of_reaches hchain hw
    exact hlast _ (hchain n)
  · intro h
    simp only [IsLast, not_forall, not_not] at h
    choose next hnext using h
    let step : {w // ReflTransGen (Next root) v w} → {w // ReflTransGen (Next root) v w} :=
      fun w => ⟨next w.1 w.2, w.2.tail (hnext w.1 w.2)⟩
    refine ⟨fun n => (step^[n] ⟨v, .refl⟩).1, rfl, fun n => ?_⟩
    beta_reduce
    rw [Function.iterate_succ_apply']
    exact hnext _ _

/-- From a value on a loop, only values on loops are reached. -/
theorem loops_of_reaches (hloop : TransGen (Next root) v v) (h : ReflTransGen (Next root) v w) :
    TransGen (Next root) w w := by
  induction h with
  | refl => exact hloop
  | tail _ hnext ih =>
    obtain ⟨u, hu, hback⟩ := TransGen.head'_iff.1 ih
    cases next_rightUnique root hu hnext
    exact .tail' hback hnext

theorem endless_of_loops (hloop : TransGen (Next root) v v) : Endless root v := by
  refine endless_iff.2 fun w hw hlast => ?_
  obtain ⟨u, hu, -⟩ := TransGen.head'_iff.1 (loops_of_reaches hloop hw)
  exact hlast u hu

theorem Endless.head (hnext : Next root v w) (h : Endless root w) : Endless root v := by
  refine endless_iff.2 fun u hu => ?_
  rcases hu.cases_head with rfl | ⟨w', hw', hrest⟩
  · exact fun hlast => hlast w hnext
  · cases next_rightUnique root hw' hnext
    exact endless_iff.1 h u hrest

/-! ## What a chain comes to -/

/-- The outcome that fits a chain. -/
inductive ComesTo (root v : Value) : Outcome Value → Prop
  | ends {w : Value} (h : ReflTransGen (Next root) v w) (hw : w.ref? = none) :
    ComesTo root v (.ok w)
  | breaks {w : Value} {r : String} {e : Error} (h : ReflTransGen (Next root) v w)
    (hw : w.ref? = some r) (he : resolve root r = .error e) : ComesTo root v (.error e)
  | goesOn (h : Endless root v) (r : String) : ComesTo root v (.error ⟨.circularReference, r⟩)

theorem ComesTo.head {x : Outcome Value} (hnext : Next root v w) (h : ComesTo root w x) :
    ComesTo root v x := by
  cases h with
  | ends h hw => exact .ends (.head hnext h) hw
  | breaks h hw he => exact .breaks (.head hnext h) hw he
  | goesOn h r => exact .goesOn (h.head hnext) r

/-- A reference that is not pending has been taken, so it resolves to a value from which the value
at hand was reached. -/
theorem comesTo_follow (pending : List String) (v : Value)
    (htaken : ∀ r, r ∈ v.refs ∨ r ∈ root.refs → r ∉ pending →
      ∃ u, resolve root r = .ok u ∧ ReflTransGen (Next root) u v) :
    ComesTo root v (follow root pending v) := by
  fun_induction follow root pending v with
  | case1 pending v hr => exact .ends .refl hr
  | case2 pending v r hr hm next hres ih =>
    refine (ih fun s hs hnot => ?_).head ⟨r, hr, hres⟩
    have hroot : s ∈ root.refs := hs.elim (fun h => refs_subset_of_resolve hres h) id
    by_cases hsr : s = r
    · exact ⟨next, hsr ▸ hres, .refl⟩
    · obtain ⟨u, hu, hreach⟩ := htaken s (.inr hroot) fun hp => hnot (mem_others.2 ⟨hp, hsr⟩)
      exact ⟨u, hu, hreach.tail ⟨r, hr, hres⟩⟩
  | case3 pending v r hr hm e hres => exact .breaks .refl hr hres
  | case4 pending v r hr hm =>
    obtain ⟨u, hu, hreach⟩ := htaken r (.inl (Value.mem_refs_of_ref? hr)) hm
    exact .goesOn (endless_of_loops (.head' ⟨r, hr, hu⟩ hreach)) r

theorem comesTo_resolveObject (root v : Value) : ComesTo root v (resolveObject root v) :=
  comesTo_follow _ v fun _ hr hnot => (hnot (List.mem_append.2 hr)).elim

/-- The last value of a chain settles its outcome. -/
theorem ComesTo.of_isLast {x : Outcome Value} (h : ComesTo root v x)
    (hw : ReflTransGen (Next root) v w) (hlast : IsLast root w) :
    w.ref? = none ∧ x = .ok w
      ∨ ∃ r e, w.ref? = some r ∧ resolve root r = .error e ∧ x = .error e := by
  cases h with
  | ends h hu =>
    cases (isLast_of_ref?_none hu).unique hlast h hw
    exact .inl ⟨hu, rfl⟩
  | breaks h hu he =>
    cases (isLast_of_resolve_error hu he).unique hlast h hw
    exact .inr ⟨_, _, hu, he, rfl⟩
  | goesOn h r => exact (endless_iff.1 h w hw hlast).elim

theorem ComesTo.of_endless {x : Outcome Value} (h : ComesTo root v x) (hend : Endless root v) :
    ∃ r, x = fail .circularReference r := by
  cases h with
  | ends h hu => exact (endless_iff.1 hend _ h (isLast_of_ref?_none hu)).elim
  | breaks h hu he => exact (endless_iff.1 hend _ h (isLast_of_resolve_error hu he)).elim
  | goesOn _ r => exact ⟨r, rfl⟩

theorem resolve_ne_circular {r : String} {e : Error} (h : resolve root r = .error e) :
    e.cause ≠ .circularReference :=
  errs_resolve (E := fun e => e.cause ≠ .circularReference) (by simp) (by simp) root r e h

/-- Following a chain takes one turn more than there are references at most. It gives the value
without reference at which the chain ends, fails as circular exactly if the chain never ends, and
else as the reference does at which the chain breaks off. -/
theorem resolveObject_follows_chain (root v : Value) :
    followWithin root ((v.refs ++ root.refs).toFinset.card + 1) [] v
        = some (resolveObject root v)
    ∧ (∀ w, resolveObject root v = .ok w ↔ ReflTransGen (Next root) v w ∧ w.ref? = none)
    ∧ ((∃ r, resolveObject root v = fail .circularReference r) ↔ Endless root v)
    ∧ ∀ e, resolveObject root v = .error e ∧ e.cause ≠ .circularReference ↔
      ∃ w r, ReflTransGen (Next root) v w ∧ w.ref? = some r ∧ resolve root r = .error e := by
  have hcomes := comesTo_resolveObject root v
  refine ⟨followWithin_eq _ v (fun r hr => by simpa using hr) (Nat.lt_succ_self _), fun w => ?_,
    ?_, fun e => ?_⟩
  · constructor
    · intro h
      rw [h] at hcomes
      cases hcomes with
      | ends hw hr => exact ⟨hw, hr⟩
    · rintro ⟨hw, hr⟩
      rcases hcomes.of_isLast hw (isLast_of_ref?_none hr) with ⟨-, h⟩ | ⟨r, e, hr', -⟩
      · exact h
      · simp [hr] at hr'
  · constructor
    · rintro ⟨r, h⟩
      rw [h, fail] at hcomes
      cases hcomes with
      | breaks _ _ he => exact (resolve_ne_circular he rfl).elim
      | goesOn hend => exact hend
    · exact hcomes.of_endless
  · constructor
    · rintro ⟨h, hcause⟩
      rw [h] at hcomes
      cases hcomes with
      | breaks hw hr he => exact ⟨_, _, hw, hr, he⟩
      | goesOn _ r => exact (hcause rfl).elim
    · rintro ⟨w, r, hw, hr, he⟩
      refine ⟨?_, resolve_ne_circular he⟩
      rcases hcomes.of_isLast hw (isLast_of_resolve_error hr he) with ⟨hr', -⟩ | ⟨_, _, hr', he', h⟩
      · simp [hr] at hr'
      · cases hr.symm.trans hr'
        cases he.symm.trans he'
        exact h

end ZodGen.Reference
