import ZodGen.Proofs.CompileCongr

/-!
# The nodes of validators

A node is a form that stands somewhere in a validator. `Form.Node` lists the forms that the compiler
builds, each with what the compiler knows of it: it coerces only a number or a boolean, a union has
options, those of a discriminated union carry a tag, and a name is that of a schema component. Every
node of a compiled validator is one of
them (`Compiler.built_compile`, `Operation.built_compile`), so a property of these forms holds
everywhere in what is compiled.
-/

namespace ZodGen

/-- The parts that a form is made of. -/
def Form.children {α : Type} : Form α → List α
  | .object s => Assoc.values s.properties
  | .array item => [item]
  | .coerce inner => [inner]
  | .nullable inner => [inner]
  | .optional inner => [inner]
  | .default inner _ => [inner]
  | .union options => options
  | .discriminatedUnion _ options => options
  | .merge parts => parts
  | .extend base s => base :: Assoc.values s.properties
  | _ => []

namespace Validator

mutual

/-- The forms that stand in a validator, its own first. -/
def nodes : Validator → List (Form Validator)
  | ⟨form, _⟩ => nodesOfForm form

/-- A form and the forms that stand in it. -/
def nodesOfForm : Form Validator → List (Form Validator)
  | .object ⟨ps, required⟩ => .object ⟨ps, required⟩ :: nodesOfMembers ps
  | .array item => .array item :: item.nodes
  | .coerce inner => .coerce inner :: inner.nodes
  | .nullable inner => .nullable inner :: inner.nodes
  | .optional inner => .optional inner :: inner.nodes
  | .default inner v => .default inner v :: inner.nodes
  | .union options => .union options :: nodesOfAll options
  | .discriminatedUnion d options => .discriminatedUnion d options :: nodesOfAll options
  | .merge parts => .merge parts :: nodesOfAll parts
  | .extend base ⟨ps, required⟩ =>
    .extend base ⟨ps, required⟩ :: (base.nodes ++ nodesOfMembers ps)
  | form => [form]

/-- The forms that stand in a list of validators. -/
def nodesOfAll : List Validator → List (Form Validator)
  | [] => []
  | v :: vs => v.nodes ++ nodesOfAll vs

/-- The forms that stand in properties. -/
def nodesOfMembers : List (String × Validator) → List (Form Validator)
  | [] => []
  | (_, v) :: ps => v.nodes ++ nodesOfMembers ps

end

theorem nodes_eq (v : Validator) : v.nodes = nodesOfForm v.form := by
  obtain ⟨form, d⟩ := v
  rw [nodes]

theorem mem_nodesOfAll {node : Form Validator} : ∀ {vs : List Validator},
    node ∈ nodesOfAll vs ↔ ∃ v ∈ vs, node ∈ v.nodes
  | [] => by simp [nodesOfAll]
  | v :: vs => by simp [nodesOfAll, mem_nodesOfAll]

theorem mem_nodesOfMembers {node : Form Validator} : ∀ {ps : List (String × Validator)},
    node ∈ nodesOfMembers ps ↔ ∃ v ∈ Assoc.values ps, node ∈ v.nodes
  | [] => by simp [nodesOfMembers, Assoc.values]
  | (k, v) :: ps => by
    rw [nodesOfMembers, List.mem_append, mem_nodesOfMembers]
    simp [Assoc.values]

/-- A node of a form is the form itself, or a node of a part of it. -/
theorem mem_nodesOfForm {node form : Form Validator} :
    node ∈ nodesOfForm form ↔ node = form ∨ ∃ v ∈ form.children, node ∈ v.nodes := by
  cases form <;>
    simp [nodesOfForm, Form.children, mem_nodesOfAll, mem_nodesOfMembers]

theorem sizeOf_values_lt {v : Validator} {ps : List (String × Validator)}
    (h : v ∈ Assoc.values ps) : sizeOf v < sizeOf ps := by
  obtain ⟨⟨name, w⟩, hm, rfl⟩ := List.mem_map.1 h
  have hlt := List.sizeOf_lt_of_mem hm
  simp only [Prod.mk.sizeOf_spec] at hlt ⊢
  omega

/-- One case for each form. By this, induction on validators may go through the parts of a form. -/
theorem sizeOf_children_lt {v : Validator} {form : Form Validator} (h : v ∈ form.children) :
    sizeOf v < sizeOf form := by
  cases form with
  | object s =>
    obtain ⟨ps, required⟩ := s
    have hlt : sizeOf v < sizeOf ps := sizeOf_values_lt h
    simp only [Form.object.sizeOf_spec, Shape.mk.sizeOf_spec]
    omega
  | extend base s =>
    obtain ⟨ps, required⟩ := s
    simp only [Form.extend.sizeOf_spec, Shape.mk.sizeOf_spec]
    rcases List.mem_cons.1 h with rfl | h
    · omega
    · have hlt : sizeOf v < sizeOf ps := sizeOf_values_lt h
      omega
  | union vs | discriminatedUnion _ vs | merge vs =>
    have hlt : sizeOf v < sizeOf vs := List.sizeOf_lt_of_mem h
    simp
    omega
  | array | coerce | nullable | optional =>
    rw [List.mem_singleton.1 h]
    simp
  | default =>
    rw [List.mem_singleton.1 h]
    simp
    omega
  | _ => simp [Form.children] at h

/-- What a validator has as soon as the validators in its form have it, all validators have. -/
theorem induction_children {motive : Validator → Prop}
    (h : ∀ v : Validator, (∀ w ∈ v.form.children, motive w) → motive v) (v : Validator) :
    motive v := by
  refine h v fun w hw => induction_children h w
termination_by sizeOf v
decreasing_by
  obtain ⟨form, d⟩ := v
  have := sizeOf_children_lt hw
  simp only [Validator.mk.sizeOf_spec] at this ⊢
  omega

end Validator

open Validator (nodesOfForm)

/-- An object that requires a property, with one text as the only value of the property. -/
def Validator.Tagged (v : Validator) (property tag : String) : Prop :=
  ∃ shape, v.form = .object shape
    ∧ Assoc.get? property shape.properties = some (.literalText tag) ∧ property ∈ shape.required

variable {P : String → Prop}

/-- The forms that the compiler builds, when names that it refers to have a property. -/
inductive Form.Node (P : String → Prop) : Form Validator → Prop
  | object (s : Shape Validator) : Node P (.object s)
  | string : Node P .string
  | number (b : Bounds) : Node P (.number b)
  | boolean : Node P .boolean
  | datetime : Node P .datetime
  | any : Node P .any
  | undefined : Node P .undefined
  | array (v : Validator) : Node P (.array v)
  | enum (texts : List String) : Node P (.enum texts)
  | literal (x : Value) : Node P (.literal x)
  | reference {name : String} (h : P name) : Node P (.reference name)
  | coerceNumber (b : Bounds) : Node P (.coerce (.plain (.number b)))
  | coerceBoolean : Node P (.coerce (.plain .boolean))
  | nullable (v : Validator) : Node P (.nullable v)
  | optional (v : Validator) : Node P (.optional v)
  | default (v : Validator) (x : Value) : Node P (.default v x)
  | union {vs : List Validator} (h : vs ≠ []) : Node P (.union vs)
  | discriminatedUnion {d : String} {vs : List Validator} (h : ∀ v ∈ vs, ∃ tag, v.Tagged d tag) :
    Node P (.discriminatedUnion d vs)

/-- A form that the compiler builds out of such forms. -/
def Form.Built (P : String → Prop) (form : Form Validator) : Prop :=
  ∀ node ∈ nodesOfForm form, node.Node P

/-- A validator in which every node is one that the compiler builds. -/
def Validator.Built (P : String → Prop) (v : Validator) : Prop := v.form.Built P

/-- A shape whose properties the compiler builds. -/
def Shape.Built (P : String → Prop) (s : Shape Validator) : Prop :=
  ∀ v ∈ Assoc.values s.properties, v.Built P

/-! ## Building validators -/

section Build

theorem Validator.built_iff {v : Validator} : v.Built P ↔ ∀ node ∈ v.nodes, node.Node P := by
  rw [nodes_eq]
  rfl

/-- A form is built when its own node may stand there and its parts are built. -/
theorem Form.built_iff {form : Form Validator} :
    form.Built P ↔ form.Node P ∧ ∀ v ∈ form.children, v.Built P := by
  simp only [Built, Validator.mem_nodesOfForm, Validator.built_iff]
  constructor
  · exact fun h => ⟨h form (.inl rfl), fun v hv node hn => h node (.inr ⟨v, hv, hn⟩)⟩
  · rintro ⟨hform, hchildren⟩ node (rfl | ⟨v, hv, hn⟩)
    · exact hform
    · exact hchildren v hv node hn

theorem Form.built_object {s : Shape Validator} : (Form.object s).Built P ↔ s.Built P :=
  built_iff.trans (and_iff_right (.object s))

theorem Form.built_union {vs : List Validator} (hne : vs ≠ []) (h : ∀ v ∈ vs, v.Built P) :
    (Form.union vs).Built P :=
  built_iff.2 ⟨.union hne, h⟩

theorem Form.built_of_leaf {form : Form Validator} (h : form.Node P)
    (hnil : form.children = []) : form.Built P :=
  built_iff.2 ⟨h, by simp [hnil]⟩

/-- A form with one part is built when the part is. -/
theorem Form.built_of_single {form : Form Validator} {v : Validator} (h : form.Node P)
    (hsingle : form.children = [v]) (hv : v.Built P) : form.Built P :=
  built_iff.2 ⟨h, by simpa [hsingle] using hv⟩

theorem Validator.built_optional {v : Validator} (h : v.Built P) : v.optional.Built P :=
  Form.built_of_single (.optional v) rfl h

theorem Validator.built_describe {v : Validator} {d : Option String} (h : v.Built P) :
    (v.describe d).Built P := by
  cases d <;> exact h

theorem Validator.built_literal (x : Value) : (plain (.literal x)).Built P :=
  Form.built_of_leaf (.literal x) rfl

theorem Shape.mem_addName {names : List String} {name n : String} :
    n ∈ addName names name ↔ n ∈ names ∨ n = name := by
  unfold addName
  split_ifs with h
  · simp only [List.contains_iff_mem] at h
    exact ⟨.inl, fun hn => hn.elim id fun he => he ▸ h⟩
  · simp

theorem Shape.built_empty : (Shape.empty : Shape Validator).Built P := by
  simp [Built, empty, Assoc.values]

theorem Shape.built_insert {s : Shape Validator} {name : String} {v : Validator}
    {required : Bool} (hs : s.Built P) (hv : v.Built P) : (s.insert name v required).Built P := by
  intro w hw
  rcases Assoc.mem_values_set hw with rfl | hw
  · exact hv
  · exact hs w hw

theorem Shape.built_absorb {s other : Shape Validator} (hs : s.Built P) (ho : other.Built P) :
    (s.absorb other).Built P := by
  intro w hw
  rcases Assoc.mem_values_extend hw with hw | hw
  · exact hs w hw
  · exact ho w hw

theorem Shape.built_of_shape? {v : Validator} {s : Shape Validator} (h : v.shape? = some s)
    (hv : v.Built P) : s.Built P := by
  unfold Validator.shape? at h
  split at h
  · rename_i hform
    cases h
    rwa [Validator.Built, hform, Form.built_object] at hv
  · simp at h

end Build

/-! ## Schemas -/

namespace Schema

section Rules

variable {c : Compiler} {pending : List String} {o : Options}

theorem compileItems_built {schemas : List Value} {vs : List Validator}
    (hs : ∀ s ∈ schemas, ∀ v, compileWith c pending o s = .ok v → v.Built P)
    (h : compileItems c pending o schemas = .ok vs) : ∀ v ∈ vs, v.Built P := by
  rw [compileItems_eq_mapM] at h
  intro v hv
  obtain ⟨s, hmem, hv⟩ := Outcome.exists_of_mem_mapM h hv
  exact hs s hmem v hv

theorem compileMembers_built {ms : List (String × Value)} {ps : List (String × Validator)}
    (hs : ∀ s ∈ ms.map Prod.snd, ∀ v, compileWith c pending o s = .ok v → v.Built P)
    (h : compileMembers c pending o ms = .ok ps) : ∀ v ∈ Assoc.values ps, v.Built P := by
  rw [compileMembers_eq_mapM] at h
  intro v hv
  obtain ⟨p, hp, rfl⟩ := List.mem_map.1 hv
  obtain ⟨m, hm, hp⟩ := Outcome.exists_of_mem_mapM h hp
  obtain ⟨v, hcompile, heq⟩ := Outcome.bind_eq_ok.1 hp
  cases heq
  exact hs m.2 (List.mem_map_of_mem hm) v hcompile

theorem compileParts_built {parts : List Value} {vs : List Validator}
    (hs : ∀ s ∈ parts, ∀ v, compileWith c pending o s = .ok v → v.Built P)
    (he : ∀ s ∈ parts, ∀ r, s.ref? = some r → ∀ v, expand c pending o true r = .ok v → v.Built P)
    (h : compileParts c pending o parts = .ok vs) : ∀ v ∈ vs, v.Built P := by
  rw [compileParts_eq_mapM] at h
  intro v hv
  obtain ⟨part, hpart, hv⟩ := Outcome.exists_of_mem_mapM h hv
  unfold partWith at hv
  rcases hr : part.ref? with _ | r <;> rw [hr] at hv
  · exact hs part hpart v hv
  · exact he part hpart r hr v hv

theorem tagged_built {property tag reference : String} {v w : Validator} (hv : v.Built P)
    (h : tagged property tag reference v = .ok w) : w.Built P := by
  unfold tagged at h
  split at h
  · rename_i shape hform
    cases h
    rw [Validator.Built, hform, Form.built_object] at hv
    exact Form.built_object.2 (Shape.built_insert hv (Validator.built_literal _))
  · simp [fail] at h

theorem tagged_of_tagged {property tag reference : String} {v w : Validator}
    (h : tagged property tag reference v = .ok w) : w.Tagged property tag := by
  unfold tagged at h
  split at h
  · cases h
    exact ⟨_, rfl, Assoc.get?_set_self _ _ _, Shape.mem_addName.2 (.inr rfl)⟩
  · simp [fail] at h

/-- The variants under a discriminator are the references with a tag, one by one. -/
theorem variants_tagged {d : Discriminator} {property : String} {alts : List Value}
    {vs : List Validator} (h : variants c pending o d property alts = .ok vs) :
    List.Forall₂ (fun m v => v.Tagged property m.2) (taggedReferences d alts) vs := by
  rw [variants_eq_mapM] at h
  refine (Outcome.mapM_eq_ok.1 h).imp fun m v hv => ?_
  obtain ⟨target, -, hv⟩ := Outcome.bind_eq_ok.1 hv
  exact tagged_of_tagged hv

theorem exists_tagged_of_mem_variants {d : Discriminator} {property : String} {alts : List Value}
    {vs : List Validator} {v : Validator} (h : variants c pending o d property alts = .ok vs)
    (hv : v ∈ vs) : ∃ tag, v.Tagged property tag := by
  obtain ⟨m, -, hm⟩ := Outcome.exists_right_of_forall₂ (variants_tagged h).flip hv
  exact ⟨m.2, hm⟩

theorem variants_built (d : Discriminator) (property : String) {alts : List Value}
    {vs : List Validator}
    (he : ∀ s ∈ alts, ∀ r, s.ref? = some r → ∀ v, expand c pending o true r = .ok v → v.Built P)
    (h : variants c pending o d property alts = .ok vs) : ∀ v ∈ vs, v.Built P := by
  rw [variants_eq_mapM] at h
  intro v hv
  obtain ⟨m, hm, hv⟩ := Outcome.exists_of_mem_mapM h hv
  obtain ⟨target, htarget, hv⟩ := Outcome.bind_eq_ok.1 hv
  obtain ⟨alt, halt, hr⟩ := mem_of_mem_taggedReferences hm
  exact tagged_built (he alt halt m.1 hr target htarget) hv

theorem absorbParts_built : ∀ {parts : List Validator} {shape : Shape Validator},
    shape.Built P → (∀ v ∈ parts, v.Built P) → (absorbParts shape parts).Built P
  | [], _, hs, _ => hs
  | v :: parts, shape, hs, hp => by
    show (absorbParts _ parts).Built P
    refine absorbParts_built ?_ fun w hw => hp w (List.mem_cons_of_mem _ hw)
    beta_reduce
    split
    · rename_i p hshape
      exact Shape.built_absorb hs (Shape.built_of_shape? hshape (hp v List.mem_cons_self))
    · exact hs

theorem alternatives_built {vs : List Validator} (h : ∀ v ∈ vs, v.Built P) :
    (alternatives vs).Built P := by
  unfold alternatives
  split
  · exact Form.built_of_leaf .any rfl
  · exact h _ List.mem_cons_self
  · rename_i hnil _
    exact Form.built_union hnil h

theorem finish_built {schema : Value} {form : Form Validator} (h : form.Built P) :
    (finish schema form).Built P := by
  unfold finish
  simp only []
  split_ifs
  · exact Form.built_of_single (.nullable _) rfl h
  · exact h

theorem leaf_number_built (b : Bounds) : (leaf o (.number b)).Built P := by
  unfold leaf
  split_ifs
  · exact Form.built_of_single (.coerceNumber b) rfl (Form.built_of_leaf (.number b) rfl)
  · exact Form.built_of_leaf (.number b) rfl

theorem leaf_boolean_built : (leaf o .boolean).Built P := by
  unfold leaf
  split_ifs
  · exact Form.built_of_single .coerceBoolean rfl (Form.built_of_leaf .boolean rfl)
  · exact Form.built_of_leaf .boolean rfl

theorem plainForm_built {schema : Value} {form : Form Validator}
    (h : plainForm o schema = .ok form) : form.Built P := by
  unfold plainForm at h
  split at h
  · split_ifs at h
    · cases h
      exact Form.built_of_leaf .datetime rfl
    · split at h
      · unfold enumForm at h
        split at h
        · simp [fail] at h
        · obtain ⟨texts, -, h⟩ := Outcome.bind_eq_ok.1 h
          cases h
          exact Form.built_of_leaf (.enum texts) rfl
        · simp [fail] at h
      · cases h
        exact Form.built_of_leaf .string rfl
  all_goals cases h
  · exact leaf_number_built _
  · exact leaf_number_built _
  · exact leaf_boolean_built
  · exact Form.built_object.2 Shape.built_empty
  · exact Form.built_of_leaf .any rfl

/-- A rule builds its form out of the schemas it compiles and the references it replaces. -/
theorem lowerBy_built {schema : Value} {rule : Rule} {form : Form Validator}
    (hs : ∀ s ∈ rule.schemas, ∀ v, compileWith c pending o s = .ok v → v.Built P)
    (he : ∀ s ∈ rule.schemas, ∀ r, s.ref? = some r → ∀ v, expand c pending o true r = .ok v →
      v.Built P)
    (h : lowerBy c pending o schema rule = .ok form) : form.Built P := by
  rcases rule with ⟨d, alts⟩ | ⟨parts, own⟩ | alts | ps | item | _ <;>
    simp only [Rule.schemas] at hs he <;> simp only [lowerBy] at h
  case tagged =>
    split at h
    · simp [fail] at h
    · obtain ⟨vs, hvs, h⟩ := Outcome.bind_eq_ok.1 h
      cases h
      refine Form.built_iff.2 ⟨.discriminatedUnion fun v hv => ?_, variants_built d _ he hvs⟩
      exact exists_tagged_of_mem_variants hvs hv
  case allOf =>
    obtain ⟨vs, hvs, h⟩ := Outcome.bind_eq_ok.1 h
    have hparts := compileParts_built (fun s hm => hs s (List.mem_append_left _ hm))
      (fun s hm => he s (List.mem_append_left _ hm)) hvs
    have hshape : (absorbParts (Shape.empty.require (required schema)) vs).Built P :=
      absorbParts_built Shape.built_empty hparts
    rcases own with _ | ps
    · cases h
      exact Form.built_object.2 hshape
    · obtain ⟨own, hown, h⟩ := Outcome.bind_eq_ok.1 h
      cases h
      exact Form.built_object.2 (Shape.built_absorb hshape
        (compileMembers_built (fun s hm => hs s (List.mem_append_right _ hm)) hown))
  case alternatives =>
    obtain ⟨vs, hvs, h⟩ := Outcome.bind_eq_ok.1 h
    cases h
    exact alternatives_built (compileItems_built hs hvs)
  case properties =>
    obtain ⟨qs, hqs, h⟩ := Outcome.bind_eq_ok.1 h
    cases h
    exact Form.built_object.2 (compileMembers_built hs hqs)
  case array =>
    rcases item with _ | item
    · simp [fail] at h
    · obtain ⟨v, hv, h⟩ := Outcome.bind_eq_ok.1 h
      cases h
      exact Form.built_of_single (.array v) rfl (hs item (by simp) v hv)
  case plain =>
    exact plainForm_built h

end Rules

variable {R : String → Prop} {c : Compiler}

/-- The bindings of the schema components that references in `R` lead to have a property. -/
def Compiler.Names (c : Compiler) (R P : String → Prop) : Prop :=
  ∀ r name, R r → (Reference.schemaName? r).isSome → c.bindingName r = .ok name → P name

/-- Between two replacements the schema gets smaller, as in `compileWith_congr`. -/
theorem compileWith_built {pending : List String} {o : Options} (hn : c.Names R P)
    (he : ∀ r, R r → ∀ f v, expand c pending o f r = .ok v → v.Built P) (schema : Value)
    (hs : ∀ r ∈ schema.refs, R r) {v : Validator} (h : compileWith c pending o schema = .ok v) :
    v.Built P := by
  have hin : ∀ s ∈ (Rule.of schema).schemas, ∀ r ∈ s.refs, R r :=
    fun s hm r hr => hs r ((Rule.inside_of_mem_schemas hm).2 hr)
  rw [compileWith] at h
  rcases hr : schema.ref? with _ | r <;> simp only [hr] at h
  · obtain ⟨form, hform, h⟩ := Outcome.bind_eq_ok.1 h
    cases h
    rw [lower_eq] at hform
    refine finish_built (lowerBy_built (fun s hm w hw => ?_) (fun s hm r hr w hw => ?_) hform)
    · exact compileWith_built hn he s (hin s hm) hw
    · exact he r (hin s hm r (Value.mem_refs_of_ref? hr)) true w hw
  · have hR := hs r (Value.mem_refs_of_ref? hr)
    split_ifs at h with hname
    · obtain ⟨name, hb, h⟩ := Outcome.bind_eq_ok.1 h
      cases h
      exact Form.built_of_leaf (.reference (hn r name hR hname hb)) rfl
    · exact he r hR false v h
termination_by sizeOf schema
decreasing_by exact (Rule.inside_of_mem_schemas hm).1

/-- By induction on the references that may still be replaced, as in `expand_congr`. -/
theorem expand_built (hc : Reference.Closed R c.root) (hn : c.Names R P) (o : Options)
    (pending : List String) (r : String) (hr : R r) (f : Bool) (v : Validator)
    (h : expand c pending o f r = .ok v) : v.Built P := by
  rw [expand] at h
  by_cases hm : r ∈ pending
  · have ih : ∀ s, R s → ∀ f v, expand c (Reference.others r pending) o f s = .ok v →
        v.Built P := fun s hs f v => expand_built hc hn o _ s hs f v
    rw [dif_pos hm] at h
    rcases hres : Reference.resolve c.root r with e | target <;> simp only [hres] at h
    · cases h
    · have ht := hc r target hr hres
      split at h
      · rename_i next hnext
        exact ih next (ht next (Value.mem_refs_of_ref? hnext)) true v h
      · exact compileWith_built hn ih target ht h
  · rw [dif_neg hm] at h
    simp [fail] at h
termination_by pending.length
decreasing_by exact Reference.length_others_lt hm

/-- The compiler builds every node of a validator, and refers only to bindings of schema components
that the references at hand lead to. -/
theorem Compiler.built_compile (hc : Reference.Closed R c.root) (hn : c.Names R P)
    {schema : Value} {o : Options} (hs : ∀ r ∈ schema.refs, R r) {v : Validator}
    (h : c.compile schema o = .ok v) : v.Built P :=
  compileWith_built hn (expand_built hc hn o _) schema hs h

end Schema

/-! ## Operations -/

namespace Operation

variable {R : String → Prop} {c : Schema.Compiler}

/-- Parameters that are built, in every location. -/
def Parameters.Built (P : String → Prop) (ps : Parameters) : Prop :=
  ps.path.Built P ∧ ps.query.Built P ∧ ps.header.Built P

theorem Parameters.built_insert {ps : Parameters} {l : Location} {name : String} {v : Validator}
    {required : Bool} (hps : ps.Built P) (hv : v.Built P) :
    (ps.insert l name v required).Built P := by
  obtain ⟨hpath, hquery, hheader⟩ := hps
  cases l with
  | path => exact ⟨Shape.built_insert hpath hv, hquery, hheader⟩
  | query => exact ⟨hpath, Shape.built_insert hquery hv, hheader⟩
  | header => exact ⟨hpath, hquery, Shape.built_insert hheader hv⟩
  | cookie => exact ⟨hpath, hquery, hheader⟩

theorem addParameter_built (hc : Reference.Closed R c.root) (hn : c.Names R P) {label : String}
    {ps qs : Parameters} {p : Value} (hp : ∀ r ∈ p.refs, R r) (hps : ps.Built P)
    (h : addParameter c label ps p = .ok qs) : qs.Built P := by
  unfold addParameter at h
  simp only [] at h
  split at h
  · cases h
    exact hps
  · cases h
    exact hps
  · rcases hs : p.get? "schema" with _ | schema <;> simp only [hs] at h
    · simp [fail] at h
    · obtain ⟨v, hv, h⟩ := Outcome.bind_eq_ok.1 h
      cases h
      refine Parameters.built_insert hps (Validator.built_describe ?_)
      exact Schema.Compiler.built_compile hc hn
        (fun r hr => hp r (Value.refs_subset_of_get? hs hr)) hv

theorem mediaValidator_built (hc : Reference.Closed R c.root) (hn : c.Names R P) {media : Value}
    (hm : ∀ r ∈ media.refs, R r) {v : Validator} (h : mediaValidator c media = .ok v) :
    v.Built P := by
  unfold mediaValidator at h
  split at h
  · rename_i schema hs
    exact Schema.Compiler.built_compile hc hn
      (fun r hr => hm r (Value.refs_subset_of_get? hs hr)) h
  · cases h
    exact Form.built_of_leaf .any rfl

theorem orAbsent_built {required : Bool} {v : Validator} (h : v.Built P) :
    (orAbsent required v).Built P := by
  unfold orAbsent
  split_ifs
  · exact h
  · exact Validator.built_optional h

theorem undefined_built : (Validator.plain .undefined).Built P :=
  Form.built_of_leaf .undefined rfl

/-- The bodies of an operation are built, also the one that stands for no body. -/
theorem bodies_built (hc : Reference.Closed R c.root) (hn : c.Names R P) {op : Value}
    (hop : ∀ r ∈ op.refs, R r) {bs : List Body} (h : bodies c op = .ok bs) :
    ∀ b ∈ bs, b.validator.Built P := by
  intro b hb
  unfold bodies at h
  split at h
  · cases h
    cases List.mem_singleton.1 hb
    exact undefined_built
  · rename_i raw hraw
    have hrefs : ∀ r ∈ raw.refs, R r := fun r hr => hop r (Value.refs_subset_of_get? hraw hr)
    obtain ⟨body, hbody, h⟩ := Outcome.bind_eq_ok.1 h
    simp only [] at h
    split at h
    · cases h
      cases List.mem_singleton.1 hb
      exact orAbsent_built undefined_built
    · rename_i content hcontent
      obtain ⟨m, hm, h⟩ := Outcome.exists_of_mem_mapM h hb
      obtain ⟨v, hv, h⟩ := Outcome.bind_eq_ok.1 h
      cases h
      refine orAbsent_built (mediaValidator_built hc hn (fun r hr => ?_) hv)
      exact Reference.refs_of_resolveObject hc hrefs hbody r
        ((Schema.inside_of_obj? (obj?_of_content? hcontent) (List.mem_map_of_mem hm)).2 hr)

theorem responseHeaders_built (hc : Reference.Closed R c.root) (hn : c.Names R P)
    {response : Value} (hr : ∀ r ∈ response.refs, R r) {shape : Shape Validator}
    (h : responseHeaders c response = .ok shape) : shape.Built P := by
  unfold responseHeaders at h
  refine Outcome.foldlM_invariant (fun s m hm s' hs hstep => ?_) Shape.built_empty h
  have hraw : ∀ r ∈ m.2.refs, R r := by
    rcases ho : response.obj? "headers" with _ | ms <;> rw [ho] at hm
    · simp at hm
    · exact fun r hmr => hr r ((Schema.inside_of_obj? ho (List.mem_map_of_mem hm)).2 hmr)
  obtain ⟨header, hheader, hstep⟩ := Outcome.bind_eq_ok.1 hstep
  obtain ⟨v, hv, hstep⟩ := Outcome.bind_eq_ok.1 hstep
  cases hstep
  refine Shape.built_insert hs (Validator.built_describe ?_)
  refine Schema.Compiler.built_compile hc hn (fun r hmr => ?_) hv
  rcases hschema : header.get? "schema" with _ | schema <;> rw [hschema] at hmr
  · simp [Value.refs, Value.refsOfMembers] at hmr
  · exact Reference.refs_of_resolveObject hc hraw hheader r
      (Value.refs_subset_of_get? hschema hmr)

theorem withContentType_built {headers : Shape Validator} {t : Option String}
    (h : headers.Built P) : (withContentType headers t).Built P := by
  rcases t with _ | t
  · exact h
  · exact Shape.built_insert h (Validator.built_literal _)

theorem status_built (status : Status) : status.validator.Built P := by
  cases status with
  | code n => exact Validator.built_literal _
  | range _ | default => exact Form.built_of_leaf (.number _) rfl

theorem branch_built {status : Status} {headers : Shape Validator} {body : Validator}
    (hh : headers.Built P) (hb : body.Built P) : (branch status headers body).Built P :=
  Form.built_object.2 (Shape.built_insert (Shape.built_insert (Shape.built_insert
    Shape.built_empty (status_built status)) (Form.built_object.2 hh)) hb)

theorem responseBranches_built (hc : Reference.Closed R c.root) (hn : c.Names R P)
    {requestType : Option String} {tagged : Bool} {key : String} {raw : Value}
    (hraw : ∀ r ∈ raw.refs, R r) {found : Status × List Validator}
    (h : responseBranches c requestType tagged key raw = .ok found) :
    ∀ v ∈ found.2, v.Built P := by
  intro v hv
  obtain ⟨status, -, h⟩ := Outcome.bind_eq_ok.1 h
  obtain ⟨response, hresponse, h⟩ := Outcome.bind_eq_ok.1 h
  obtain ⟨headers, hheaders, h⟩ := Outcome.bind_eq_ok.1 h
  obtain ⟨branches, hbranches, h⟩ := Outcome.bind_eq_ok.1 h
  cases h
  have hresp := Reference.refs_of_resolveObject hc hraw hresponse
  have hh := responseHeaders_built hc hn hresp hheaders
  obtain ⟨⟨t, media⟩, hm, hbranch⟩ := Outcome.exists_of_mem_mapM hbranches hv
  rcases media with _ | media
  · cases hbranch
    exact branch_built (withContentType_built hh) undefined_built
  · obtain ⟨body, hbody, hbranch⟩ := Outcome.bind_eq_ok.1 hbranch
    cases hbranch
    obtain ⟨ms, hcontent, hms⟩ := mem_of_mem_responseMedia hm
    refine branch_built (withContentType_built hh)
      (mediaValidator_built hc hn (fun r hr => ?_) hbody)
    exact hresp r ((Schema.inside_of_obj? (obj?_of_content? hcontent) hms).2 hr)

/-- Content that counts has a media type, so every response has a branch. -/
theorem responseMedia_ne_nil (key : String) (requestType : Option String) (tagged : Bool)
    (response : Value) : responseMedia key requestType tagged (content? response) ≠ [] := by
  unfold responseMedia
  split
  · simp
  · rename_i content hcontent
    have hne : content ≠ [] := by
      simpa using (Option.filter_eq_some_iff.1 hcontent).2
    split_ifs <;> simp [hne]

/-- A response gives one branch at least. -/
theorem responseBranches_ne_nil {requestType : Option String} {tagged : Bool} {key : String}
    {raw : Value} {found : Status × List Validator}
    (h : responseBranches c requestType tagged key raw = .ok found) : found.2 ≠ [] := by
  obtain ⟨status, -, h⟩ := Outcome.bind_eq_ok.1 h
  obtain ⟨response, -, h⟩ := Outcome.bind_eq_ok.1 h
  obtain ⟨headers, -, h⟩ := Outcome.bind_eq_ok.1 h
  obtain ⟨branches, hbranches, h⟩ := Outcome.bind_eq_ok.1 h
  cases h
  obtain ⟨m, hm⟩ :=
    List.exists_mem_of_ne_nil _ (responseMedia_ne_nil key requestType tagged response)
  obtain ⟨v, hv, -⟩ := Outcome.exists_of_mem_of_mapM hbranches hm
  exact List.ne_nil_of_mem hv

/-- The responses of an operation are one branch, or the union of several. The union is not empty,
since there is a response and each of them gives a branch. -/
theorem responses_built (hc : Reference.Closed R c.root) (hn : c.Names R P)
    {requestType : Option String} {tagged : Bool} {ms : Assoc Value} (hne : ms ≠ [])
    (hms : ∀ m ∈ ms, ∀ r ∈ m.2.refs, R r) {v : Validator}
    (h : responses c requestType tagged ms = .ok v) : v.Built P := by
  obtain ⟨found, hfound, h⟩ := Outcome.bind_eq_ok.1 h
  -- the branches are put in another order
  have hsorted : ∀ w, w ∈ ((found.partition fun f => f.1 == .default).2
      ++ (found.partition fun f => f.1 == .default).1).flatMap Prod.snd
        ↔ ∃ f ∈ found, w ∈ f.2 := by
    intro w
    simp only [List.partition_eq_filter_filter, List.mem_flatMap, List.mem_append,
      List.mem_filter]
    refine exists_congr fun f => and_congr_left fun _ => ?_
    cases hf : f.1 == Status.default <;> simp [hf]
  have hall : ∀ w, (∃ f ∈ found, w ∈ f.2) → w.Built P := by
    rintro w ⟨f, hf, hw⟩
    obtain ⟨m, hm, hbranches⟩ := Outcome.exists_of_mem_mapM hfound hf
    exact responseBranches_built hc hn (hms m hm) hbranches w hw
  obtain ⟨w, hw⟩ : ∃ w, ∃ f ∈ found, w ∈ f.2 := by
    obtain ⟨m, hm⟩ := List.exists_mem_of_ne_nil _ hne
    obtain ⟨f, hf, hbranches⟩ := Outcome.exists_of_mem_of_mapM hfound hm
    obtain ⟨w, hw⟩ := List.exists_mem_of_ne_nil _ (responseBranches_ne_nil hbranches)
    exact ⟨w, f, hf, hw⟩
  simp only [] at h
  split at h
  · rename_i single hsingle
    cases h
    exact hall v ((hsorted v).1 (hsingle ▸ List.mem_singleton_self v))
  · cases h
    exact Form.built_union (List.ne_nil_of_mem ((hsorted w).2 hw))
      fun u hu => hall u ((hsorted u).1 hu)

theorem groupObject_built {shape : Shape Validator} (h : shape.Built P) :
    (groupObject shape).Built P := by
  unfold groupObject
  split_ifs
  · exact Form.built_of_single (.default _ _) rfl
      (Validator.built_optional (Form.built_object.2 h))
  · exact Form.built_object.2 h

theorem request_built {method : String} {ps : Parameters} {headers : Shape Validator}
    {body : Validator} (hps : ps.Built P) (hh : headers.Built P) (hb : body.Built P) :
    (request method ps headers body).Built P := by
  have hfront : (((Shape.empty.insert "method" (.literalText method) true).insert "path"
      (groupObject ps.path) true).insert "query" (groupObject ps.query) true).Built P :=
    Shape.built_insert (Shape.built_insert (Shape.built_insert Shape.built_empty
      (Validator.built_literal _)) (groupObject_built hps.1)) (groupObject_built hps.2.1)
  refine Form.built_object.2 (Shape.built_insert ?_ hb)
  split_ifs
  · exact hfront
  · exact Shape.built_insert hfront (Form.built_object.2 hh)

/-- The compiler builds every node of the validators of an operation. -/
theorem built_compile (hc : Reference.Closed R c.root) (hn : c.Names R P)
    {op : Document.Operation} (hop : RefsIn R op) {cs : List Compiled}
    (h : compile c op = .ok cs) : ∀ x ∈ cs, x.request.Built P ∧ x.response.Built P := by
  intro x hx
  obtain ⟨merged, hmerged, h⟩ := Outcome.bind_eq_ok.1 h
  obtain ⟨ps, hps, h⟩ := Outcome.bind_eq_ok.1 h
  obtain ⟨variants, hvariants, h⟩ := Outcome.bind_eq_ok.1 h
  have hparams : ps.Built P :=
    Outcome.foldlM_invariant (fun a p hp b ha hb => addParameter_built hc hn
      (refs_of_mem_mergedParameters hc hop hmerged hp) ha hb)
      ⟨Shape.built_empty, Shape.built_empty, Shape.built_empty⟩ hps
  simp only [] at h
  split at h
  · simp [fail] at h
  · rename_i ms hresponses
    obtain ⟨ho, hne⟩ := Option.filter_eq_some_iff.1 hresponses
    obtain ⟨variant, hvariant, h⟩ := Outcome.exists_of_mem_mapM h hx
    obtain ⟨response, hresponse, h⟩ := Outcome.bind_eq_ok.1 h
    cases h
    refine ⟨request_built hparams (withContentType_built hparams.2.2)
      (bodies_built hc hn hop.2 hvariants variant hvariant), ?_⟩
    refine responses_built hc hn (by simpa using hne) (fun m hm r hr => ?_) hresponse
    exact hop.2 r ((Schema.inside_of_obj? ho (List.mem_map_of_mem hm)).2 hr)

end Operation

end ZodGen
