import ZodGen.Module.Compile
import ZodGen.Proofs.Members
import ZodGen.Proofs.Outcome

/-!
# Bindings of components

The components of a document are bound one after the other, each by a name that is neither one of
those that every module has nor that of a component before it (`compileComponents_eq_ok`).
-/

namespace ZodGen.Module

open Outcome

/-! ## Taking names -/

section Taking

variable {c : Schema.Compiler} {taken : List String}

/-- Components take these names in order, each with the validator of its schema: names that are
not taken before and all differ. -/
structure Declares (c : Schema.Compiler) (taken : List String) (schemas : Assoc Value)
    (components : List (String × Validator)) : Prop where
  bound : List.Forall₂ (fun m b =>
    BindingName.ofReference (Pointer.forComponent "schemas" m.1) = .ok b.1
      ∧ c.compile m.2 {} = .ok b.2) schemas components
  nodup : (Assoc.keys components).Nodup
  free : ∀ name ∈ Assoc.keys components, name ∉ taken

theorem declares_nil {components : List (String × Validator)} :
    Declares c taken [] components ↔ components = [] := by
  constructor
  · intro h
    exact List.forall₂_nil_left_iff.1 h.bound
  · rintro rfl
    exact ⟨.nil, List.nodup_nil, by simp [Assoc.keys]⟩

/-- The first name is taken for the rest. -/
theorem declares_cons {m : String × Value} {schemas : Assoc Value}
    {components : List (String × Validator)} :
    Declares c taken (m :: schemas) components ↔ ∃ name v rest,
      components = (name, v) :: rest
        ∧ BindingName.ofReference (Pointer.forComponent "schemas" m.1) = .ok name
        ∧ c.compile m.2 {} = .ok v ∧ name ∉ taken ∧ Declares c (taken ++ [name]) schemas rest := by
  constructor
  · rintro ⟨hbound, hnodup, hfree⟩
    obtain ⟨⟨name, v⟩, rest, ⟨hname, hv⟩, hrest, rfl⟩ := List.forall₂_cons_left_iff.1 hbound
    obtain ⟨hnot, hnodup⟩ := List.nodup_cons.1 hnodup
    refine ⟨name, v, rest, rfl, hname, hv, hfree name List.mem_cons_self, hrest, hnodup, ?_⟩
    intro other hother htaken
    rcases List.mem_append.1 htaken with h | h
    · exact hfree other (List.mem_cons_of_mem _ hother) h
    · exact hnot (List.mem_singleton.1 h ▸ hother)
  · rintro ⟨name, v, rest, rfl, hname, hv, hnot, hbound, hnodup, hfree⟩
    refine ⟨.cons ⟨hname, hv⟩ hbound, List.nodup_cons.2 ⟨fun h => ?_, hnodup⟩, ?_⟩
    · exact hfree name h (by simp)
    · refine List.forall_mem_cons.2 ⟨hnot, fun other hother h => ?_⟩
      exact hfree other hother (List.mem_append_left _ h)

section Members

variable {schemas : Assoc Value} {components : List (String × Validator)}

theorem Declares.exists_component (h : Declares c taken schemas components) {m : String × Value}
    (hm : m ∈ schemas) : ∃ b ∈ components,
      BindingName.ofReference (Pointer.forComponent "schemas" m.1) = .ok b.1
        ∧ c.compile m.2 {} = .ok b.2 :=
  exists_right_of_forall₂ h.bound hm

theorem Declares.exists_schema (h : Declares c taken schemas components)
    {b : String × Validator} (hb : b ∈ components) : ∃ m ∈ schemas,
      BindingName.ofReference (Pointer.forComponent "schemas" m.1) = .ok b.1
        ∧ c.compile m.2 {} = .ok b.2 :=
  exists_right_of_forall₂ h.bound.flip hb

/-- Components that are left out free their names, so the others keep theirs. -/
theorem Declares.sublist {d : Schema.Compiler} (h : Declares c taken schemas components)
    {kept : Assoc Value} (hsub : kept.Sublist schemas)
    (hcd : ∀ m ∈ kept, c.compile m.2 {} = d.compile m.2 {}) :
    ∃ rest, Declares d taken kept rest ∧ rest.Sublist components := by
  obtain ⟨rest, hrest, hbound⟩ := exists_sublist_of_forall₂ hsub h.bound
  have hkeys : (Assoc.keys rest).Sublist (Assoc.keys components) := hrest.map Prod.fst
  refine ⟨rest, ⟨?_, hkeys.nodup h.nodup, fun name hname => ?_⟩, hrest⟩
  · refine ((List.forall₂_and_left kept rest).2 ⟨hcd, hbound⟩).imp fun m b hb => ?_
    rw [← hb.1]
    exact hb.2
  · exact h.free name (hkeys.subset hname)

end Members

end Taking

/-! ## Components -/

section Components

variable {c : Schema.Compiler}

/-- The names that are not free once the owners are bound. -/
def takenBy (owners : Assoc String) : List String := reserved ++ Assoc.keys owners

theorem takenBy_append (owners : Assoc String) (name owner : String) :
    takenBy (owners ++ [(name, owner)]) = takenBy owners ++ [name] := by
  simp [takenBy, Assoc.keys]

theorem bindingFor_eq_ok {owners : Assoc String} {name binding : String} :
    bindingFor owners name = .ok binding ↔
      BindingName.ofReference (Pointer.forComponent "schemas" name) = .ok binding
        ∧ binding ∉ takenBy owners := by
  unfold bindingFor
  rw [bind_eq_ok, takenBy, List.mem_append, not_or, ← Assoc.get?_eq_none_iff]
  constructor
  · rintro ⟨b, hb, h⟩
    split_ifs at h with hr
    · simp [fail] at h
    · rcases ho : Assoc.get? b owners with _ | previous <;>
        simp only [ho, fail, Except.ok.injEq, reduceCtorEq] at h
      subst h
      exact ⟨hb, by simpa using hr, ho⟩
  · rintro ⟨hb, hr, ho⟩
    refine ⟨binding, hb, ?_⟩
    rw [if_neg (by simpa using hr), ho]

/-- Components are bound one by one: each is declared under its name, which then is taken. -/
theorem compileComponents_eq_ok : ∀ {schemas : Assoc Value} {owners : Assoc String}
    {components : List (String × Validator)}, compileComponents c owners schemas = .ok components ↔
      Declares c (takenBy owners) schemas components
  | [], _, components => by
    rw [declares_nil, compileComponents, Except.ok.injEq, eq_comm]
  | (name, schema) :: schemas, owners, components => by
    simp only [compileComponents, declares_cons, bind_eq_ok, bindingFor_eq_ok,
      compileComponents_eq_ok, takenBy_append, Except.ok.injEq]
    constructor
    · rintro ⟨binding, ⟨hname, hnot⟩, v, hv, rest, hrest, rfl⟩
      exact ⟨binding, v, rest, rfl, hname, hv, hnot, hrest⟩
    · rintro ⟨binding, v, rest, rfl, hname, hv, hnot, hrest⟩
      exact ⟨binding, ⟨hname, hnot⟩, v, hv, rest, hrest, rfl⟩

end Components

end ZodGen.Module
