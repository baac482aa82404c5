import ZodGen.Proofs.Nodes

/-!
# Validators with their nodes replaced

`Validator.mapNodes g` replaces every form in a validator by what `g` makes of it, from the inside
out: `g` sees a form whose parts are replaced already (`mapForm_eq`). What the compiler does to
shapes goes through such a replacement, as it moves properties without looking into them.
-/

namespace ZodGen

/-! ## Members and shapes -/

section Members

variable {κ α : Type} [DecidableEq κ] (f : α → α)

def Assoc.mapValues (ms : List (κ × α)) : List (κ × α) := ms.map fun m => (m.1, f m.2)

theorem Assoc.mapValues_set (key : κ) (v : α) : ∀ ms : List (κ × α),
    mapValues f (set key v ms) = set key (f v) (mapValues f ms)
  | [] => rfl
  | (k, w) :: ms => by
    have ih := mapValues_set key v ms
    simp only [mapValues, set, List.map_cons] at ih ⊢
    split_ifs
    · rfl
    · rw [List.map_cons, ih]

theorem Assoc.mapValues_extend : ∀ other ms : List (κ × α),
    mapValues f (extend ms other) = extend (mapValues f ms) (mapValues f other)
  | [], _ => rfl
  | (k, v) :: other, ms => by
    show mapValues f (extend (set k v ms) other) = _
    rw [mapValues_extend other, mapValues_set]
    rfl

def Shape.map (s : Shape α) : Shape α := ⟨Assoc.mapValues f s.properties, s.required⟩

theorem Shape.map_insert (s : Shape α) (name : String) (v : α) (required : Bool) :
    (s.insert name v required).map f = (s.map f).insert name (f v) required := by
  simp only [map, insert, Assoc.mapValues_set]

/-- Shapes may be changed before or after one absorbs the other. -/
theorem Shape.map_absorb (s other : Shape α) :
    (s.absorb other).map f = (s.map f).absorb (other.map f) := by
  simp only [map, absorb, Assoc.mapValues_extend]

end Members

/-! ## Forms -/

namespace Form

variable {α : Type}

/-- A form with each of its parts replaced. -/
def map (f : α → α) : Form α → Form α
  | .object s => .object (s.map f)
  | .array item => .array (f item)
  | .coerce inner => .coerce (f inner)
  | .nullable inner => .nullable (f inner)
  | .optional inner => .optional (f inner)
  | .default inner value => .default (f inner) value
  | .union options => .union (options.map f)
  | .discriminatedUnion d options => .discriminatedUnion d (options.map f)
  | .merge parts => .merge (parts.map f)
  | .extend base s => .extend (f base) (s.map f)
  | form => form

theorem children_map (f : α → α) (form : Form α) :
    (form.map f).children = form.children.map f := by
  cases form <;>
    simp [map, children, Shape.map, Assoc.mapValues, Assoc.values, Function.comp_def]

theorem map_map (f g : α → α) (form : Form α) : (form.map f).map g = form.map (g ∘ f) := by
  cases form <;> simp [map, Shape.map, Assoc.mapValues, Function.comp_def]

theorem map_eq_self {f : α → α} {form : Form α} (h : ∀ v ∈ form.children, f v = v) :
    form.map f = form := by
  have hlist : ∀ vs : List α, (∀ v ∈ vs, f v = v) → vs.map f = vs :=
    fun vs hvs => (List.map_congr_left hvs).trans (List.map_id vs)
  have hshape : ∀ s : Shape α, (∀ v ∈ Assoc.values s.properties, f v = v) → s.map f = s := by
    rintro ⟨ps, required⟩ hs
    have hps : Assoc.mapValues f ps = ps := by
      refine (List.map_congr_left fun p hp => ?_).trans (List.map_id ps)
      rw [hs p.2 (List.mem_map_of_mem hp), id]
    rw [Shape.map, hps]
  cases form with
  | object s => exact congrArg Form.object (hshape s h)
  | union vs => exact congrArg Form.union (hlist vs h)
  | discriminatedUnion d vs => exact congrArg (Form.discriminatedUnion d) (hlist vs h)
  | merge vs => exact congrArg Form.merge (hlist vs h)
  | extend base s =>
    simp only [children, List.forall_mem_cons] at h
    simp only [map, h.1, hshape s h.2]
  | _ => simp_all [map, children]

end Form

namespace Validator

mutual

/-- A validator with every form in it replaced, the inner ones first. -/
def mapNodes (g : Form Validator → Form Validator) : Validator → Validator
  | ⟨form, description⟩ => ⟨mapForm g form, description⟩

def mapForm (g : Form Validator → Form Validator) : Form Validator → Form Validator
  | .object ⟨ps, required⟩ => g (.object ⟨mapMembers g ps, required⟩)
  | .array item => g (.array (item.mapNodes g))
  | .coerce inner => g (.coerce (inner.mapNodes g))
  | .nullable inner => g (.nullable (inner.mapNodes g))
  | .optional inner => g (.optional (inner.mapNodes g))
  | .default inner value => g (.default (inner.mapNodes g) value)
  | .union options => g (.union (mapAll g options))
  | .discriminatedUnion d options => g (.discriminatedUnion d (mapAll g options))
  | .merge parts => g (.merge (mapAll g parts))
  | .extend base ⟨ps, required⟩ => g (.extend (base.mapNodes g) ⟨mapMembers g ps, required⟩)
  | form => g form

def mapAll (g : Form Validator → Form Validator) : List Validator → List Validator
  | [] => []
  | v :: vs => v.mapNodes g :: mapAll g vs

def mapMembers (g : Form Validator → Form Validator) :
    List (String × Validator) → List (String × Validator)
  | [] => []
  | (name, v) :: ps => (name, v.mapNodes g) :: mapMembers g ps

end

variable (g : Form Validator → Form Validator)

theorem mapAll_eq (vs : List Validator) : mapAll g vs = vs.map (mapNodes g) := by
  induction vs with
  | nil => rfl
  | cons v vs ih => rw [mapAll, ih, List.map_cons]

theorem mapMembers_eq (ps : List (String × Validator)) :
    mapMembers g ps = Assoc.mapValues (mapNodes g) ps := by
  induction ps with
  | nil => rfl
  | cons p ps ih =>
    obtain ⟨name, v⟩ := p
    rw [mapMembers, ih]
    rfl

/-- Nodes are changed from below: the parts of a form first, then the form. -/
theorem mapForm_eq (form : Form Validator) :
    mapForm g form = g (form.map (mapNodes g)) := by
  cases form with
  | object s | extend base s =>
    obtain ⟨ps, required⟩ := s
    simp only [mapForm, Form.map, Shape.map, mapMembers_eq]
  | _ => simp only [mapForm, Form.map, mapAll_eq]

theorem mapNodes_eq (v : Validator) :
    v.mapNodes g = ⟨g (v.form.map (mapNodes g)), v.description⟩ := by
  obtain ⟨form, description⟩ := v
  rw [mapNodes, mapForm_eq]

/-- What leaves every form alone leaves the validator alone. -/
theorem mapNodes_eq_self {g : Form Validator → Form Validator} (h : ∀ form, g form = form)
    (v : Validator) : v.mapNodes g = v := by
  induction v using induction_children with
  | h v ih =>
    obtain ⟨form, description⟩ := v
    rw [mapNodes, mapForm_eq, h, Form.map_eq_self ih]

end Validator

end ZodGen
