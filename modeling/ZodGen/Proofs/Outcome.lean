import Mathlib.Data.List.Forall2
import ZodGen.Error

/-!
# Outcomes of steps taken in order

A step after another succeeds when both do, and a step taken for each member of a list succeeds when
it does for every member.
-/

namespace ZodGen.Outcome

variable {α β γ : Type}

theorem bind_eq_ok {x : Outcome α} {f : α → Outcome β} {b : β} :
    (x >>= f) = .ok b ↔ ∃ a, x = .ok a ∧ f a = .ok b := by
  rcases x with e | a <;> simp [bind, Except.bind]

@[simp]
theorem ok_bind (a : α) (f : α → Outcome β) : ((.ok a : Outcome α) >>= f) = f a := rfl

@[simp]
theorem error_bind (e : Error) (f : α → Outcome β) :
    ((.error e : Outcome α) >>= f) = .error e := rfl

/-- A list is mapped to a list when each item is mapped to the one in its place. -/
theorem mapM_eq_ok {f : α → Outcome β} : ∀ {xs : List α} {ys : List β},
    xs.mapM f = .ok ys ↔ List.Forall₂ (fun x y => f x = .ok y) xs ys
  | [], ys => by
    rw [List.mapM_nil, List.forall₂_nil_left_iff]
    exact ⟨fun h => (Except.ok.inj h).symm, fun h => by rw [h]; rfl⟩
  | x :: xs, ys => by
    rw [List.mapM_cons, bind_eq_ok, List.forall₂_cons_left_iff]
    refine exists_congr fun y => ?_
    rw [bind_eq_ok]
    refine ⟨?_, ?_⟩
    · rintro ⟨hy, ys', hys, h⟩
      exact ⟨ys', hy, mapM_eq_ok.1 hys, (Except.ok.inj h).symm⟩
    · rintro ⟨ys', hy, hys, rfl⟩
      exact ⟨hy, ys', mapM_eq_ok.2 hys, rfl⟩

theorem exists_right_of_forall₂ {R : α → β → Prop} {xs : List α} {ys : List β}
    (h : List.Forall₂ R xs ys) {x : α} (hx : x ∈ xs) : ∃ y ∈ ys, R x y := by
  induction h with
  | nil => simp at hx
  | @cons z y xs ys hz _ ih =>
    rcases List.mem_cons.1 hx with rfl | hx
    · exact ⟨y, List.mem_cons_self, hz⟩
    · obtain ⟨w, hw, hxw⟩ := ih hx
      exact ⟨w, List.mem_cons_of_mem _ hw, hxw⟩

theorem exists_split_of_forall₂ {R : α → β → Prop} {x : α} {rest : List α} :
    ∀ {front : List α} {ys : List β}, List.Forall₂ R (front ++ x :: rest) ys →
      ∃ front' y rest', ys = front' ++ y :: rest' ∧ R x y ∧ List.Forall₂ R rest rest'
  | [], _, .cons hxy hrest => ⟨[], _, _, rfl, hxy, hrest⟩
  | _ :: _, _, .cons (b := z) _ h => by
    obtain ⟨front', y, rest', rfl, hxy, hrest⟩ := exists_split_of_forall₂ h
    exact ⟨z :: front', y, rest', rfl, hxy, hrest⟩

/-- A part of one of two related lists is related to a part of the other. -/
theorem exists_sublist_of_forall₂ {R : α → β → Prop} {xs kept : List α} (hsub : kept.Sublist xs)
    {ys : List β} (h : List.Forall₂ R xs ys) : ∃ zs, zs.Sublist ys ∧ List.Forall₂ R kept zs := by
  induction hsub generalizing ys with
  | slnil => exact ⟨[], List.nil_sublist ys, .nil⟩
  | cons x _ ih =>
    obtain ⟨y, ys, -, hys, rfl⟩ := List.forall₂_cons_left_iff.1 h
    obtain ⟨zs, hzs, hkept⟩ := ih hys
    exact ⟨zs, hzs.cons y, hkept⟩
  | cons_cons x _ ih =>
    obtain ⟨y, ys, hy, hys, rfl⟩ := List.forall₂_cons_left_iff.1 h
    obtain ⟨zs, hzs, hkept⟩ := ih hys
    exact ⟨y :: zs, hzs.cons_cons y, .cons hy hkept⟩

theorem forall₂_comp {R : α → β → Prop} {S : β → γ → Prop} :
    ∀ {xs : List α} {ys : List β} {zs : List γ}, List.Forall₂ R xs ys → List.Forall₂ S ys zs →
      List.Forall₂ (fun x z => ∃ y, R x y ∧ S y z) xs zs
  | [], [], [], .nil, .nil => .nil
  | _ :: _, _ :: _, _ :: _, .cons hxy hxs, .cons hyz hys =>
    .cons ⟨_, hxy, hyz⟩ (forall₂_comp hxs hys)

theorem exists_of_mem_mapM {f : α → Outcome β} {xs : List α} {ys : List β}
    (h : xs.mapM f = .ok ys) {y : β} (hy : y ∈ ys) : ∃ x ∈ xs, f x = .ok y :=
  exists_right_of_forall₂ (mapM_eq_ok.1 h).flip hy

theorem exists_of_mem_of_mapM {f : α → Outcome β} {xs : List α} {ys : List β}
    (h : xs.mapM f = .ok ys) {x : α} (hx : x ∈ xs) : ∃ y ∈ ys, f x = .ok y :=
  exists_right_of_forall₂ (mapM_eq_ok.1 h) hx

theorem exists_mapM {f : α → Outcome β} : ∀ {xs : List α}, (∀ x ∈ xs, ∃ y, f x = .ok y) →
    ∃ ys, xs.mapM f = .ok ys
  | [], _ => ⟨[], rfl⟩
  | x :: xs, h => by
    obtain ⟨y, hy⟩ := h x List.mem_cons_self
    obtain ⟨ys, hys⟩ := exists_mapM fun z hz => h z (List.mem_cons_of_mem _ hz)
    exact ⟨y :: ys, by rw [List.mapM_cons, hy, hys]; rfl⟩

theorem mapM_congr {f g : α → Outcome β} : ∀ {xs : List α}, (∀ x ∈ xs, f x = g x) →
    xs.mapM f = xs.mapM g
  | [], _ => rfl
  | x :: xs, h => by
    rw [List.mapM_cons, List.mapM_cons, h x List.mem_cons_self,
      mapM_congr fun y hy => h y (List.mem_cons_of_mem _ hy)]

theorem foldlM_congr {f g : β → α → Outcome β} : ∀ {xs : List α} {b : β},
    (∀ b, ∀ x ∈ xs, f b x = g b x) → xs.foldlM f b = xs.foldlM g b
  | [], _, _ => rfl
  | x :: xs, b, h => by
    rw [List.foldlM_cons, List.foldlM_cons, h b x List.mem_cons_self]
    exact bind_congr fun b' => foldlM_congr fun b y hy => h b y (List.mem_cons_of_mem _ hy)

/-- What every step keeps, the whole run keeps. -/
theorem foldlM_invariant {f : β → α → Outcome β} {Q : β → Prop} : ∀ {xs : List α} {b c : β},
    (∀ b, ∀ x ∈ xs, ∀ c, Q b → f b x = .ok c → Q c) → Q b → xs.foldlM f b = .ok c → Q c
  | [], b, c, _, hb, h => by
    cases h
    exact hb
  | x :: xs, b, c, hf, hb, h => by
    rw [List.foldlM_cons] at h
    obtain ⟨b', hb', h⟩ := bind_eq_ok.1 h
    exact foldlM_invariant (fun b y hy => hf b y (List.mem_cons_of_mem _ hy))
      (hf b x List.mem_cons_self b' hb hb') h

end ZodGen.Outcome
