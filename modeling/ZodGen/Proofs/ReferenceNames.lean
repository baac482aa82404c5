import ZodGen.Proofs.Nodes

/-!
# The names that validators refer to

`Validator.references` lists the names in the reference nodes of a validator. The compiler builds
such a node only for a reference to a schema component, so when the references at hand lead to no
others, every name is the binding of one of them (`Compiler.refersIn_compile`,
`Operation.refersIn_compile`).
-/

namespace ZodGen

namespace Validator

mutual

/-- The names in the reference nodes of a validator. -/
def references : Validator → List String
  | ⟨form, _⟩ => referencesOfForm form

/-- The names in the reference nodes of a form. -/
def referencesOfForm : Form Validator → List String
  | .object ⟨ps, _⟩ => referencesOfMembers ps
  | .array item => item.references
  | .reference name => [name]
  | .coerce inner => inner.references
  | .nullable inner => inner.references
  | .optional inner => inner.references
  | .default inner _ => inner.references
  | .union options => referencesOfAll options
  | .discriminatedUnion _ options => referencesOfAll options
  | .merge parts => referencesOfAll parts
  | .extend base ⟨ps, _⟩ => base.references ++ referencesOfMembers ps
  | _ => []

/-- The names in the reference nodes of a list of validators. -/
def referencesOfAll : List Validator → List String
  | [] => []
  | v :: vs => v.references ++ referencesOfAll vs

/-- The names in the reference nodes of properties. -/
def referencesOfMembers : List (String × Validator) → List String
  | [] => []
  | (_, v) :: ps => v.references ++ referencesOfMembers ps

end

theorem references_eq (v : Validator) : v.references = referencesOfForm v.form := by
  obtain ⟨form, d⟩ := v
  rw [references]

theorem mem_referencesOfAll {name : String} : ∀ {vs : List Validator},
    name ∈ referencesOfAll vs ↔ ∃ v ∈ vs, name ∈ v.references
  | [] => by simp [referencesOfAll]
  | v :: vs => by simp [referencesOfAll, mem_referencesOfAll]

theorem mem_referencesOfMembers {name : String} : ∀ {ps : List (String × Validator)},
    name ∈ referencesOfMembers ps ↔ ∃ v ∈ Assoc.values ps, name ∈ v.references
  | [] => by simp [referencesOfMembers, Assoc.values]
  | (k, v) :: ps => by
    rw [referencesOfMembers, List.mem_append, mem_referencesOfMembers]
    simp [Assoc.values]

theorem mem_referencesOfForm {name : String} {form : Form Validator} :
    name ∈ referencesOfForm form
      ↔ form = .reference name ∨ ∃ v ∈ form.children, name ∈ v.references := by
  cases form <;>
    simp [referencesOfForm, Form.children, mem_referencesOfAll, mem_referencesOfMembers, eq_comm]

/-- A name is referred to where a node refers to it. -/
theorem mem_references {name : String} (v : Validator) :
    name ∈ v.references ↔ .reference name ∈ v.nodes := by
  induction v using induction_children with
  | h v ih =>
    rw [references_eq, nodes_eq, mem_referencesOfForm, mem_nodesOfForm, eq_comm]
    exact or_congr_right (exists_congr fun w => and_congr_right fun hw => ih w hw)

end Validator

open Validator (referencesOfForm)

variable {P : String → Prop}

/-- Every reference node of a form has a name with a property. -/
def Form.RefersIn (P : String → Prop) (form : Form Validator) : Prop :=
  ∀ name ∈ referencesOfForm form, P name

/-- Every reference node of a validator has a name with a property. -/
def Validator.RefersIn (P : String → Prop) (v : Validator) : Prop := v.form.RefersIn P

theorem Validator.refersIn_iff {v : Validator} : v.RefersIn P ↔ ∀ name ∈ v.references, P name := by
  rw [references_eq]
  rfl

/-- What the compiler builds refers only to the names it may refer to. -/
theorem Validator.Built.refersIn {v : Validator} (h : v.Built P) : v.RefersIn P := by
  refine refersIn_iff.2 fun name hname => ?_
  cases built_iff.1 h _ ((mem_references v).1 hname) with
  | reference hP => exact hP

variable {R : String → Prop}

/-- A validator refers only to bindings of schema components that its references lead to. -/
theorem Schema.Compiler.refersIn_compile {c : Compiler} (hc : Reference.Closed R c.root)
    (hn : c.Names R P) {schema : Value} {o : Options} (hs : ∀ r ∈ schema.refs, R r)
    {v : Validator} (h : c.compile schema o = .ok v) : v.RefersIn P :=
  (built_compile hc hn hs h).refersIn

/-- The validators of an operation refer only to bindings of schema components that its references
lead to. -/
theorem Operation.refersIn_compile {c : Schema.Compiler} (hc : Reference.Closed R c.root)
    (hn : c.Names R P) {op : Document.Operation} (hop : RefsIn R op) {cs : List Compiled}
    (h : compile c op = .ok cs) : ∀ x ∈ cs, x.request.RefersIn P ∧ x.response.RefersIn P :=
  fun x hx => (built_compile hc hn hop h x hx).imp (·.refersIn) (·.refersIn)

end ZodGen
