import ZodGen.Proofs.CallChain

/-!
# Normal forms of validators

A property that is not required is rendered like one that is required and optional, and required
names without a property are not rendered at all. `Validator.norm` makes every shape require what it
has and nothing else; what is rendered stays as it is (`render_norm`).
-/

namespace ZodGen

namespace Validator

mutual

/-- A validator in which every shape requires its properties and no other names. What was not
required is optional instead. The names are in the order of the properties, since they are a set. -/
def norm : Validator → Validator
  | ⟨form, description⟩ => ⟨normForm form, description⟩

def normForm : Form Validator → Form Validator
  | .object ⟨ps, required⟩ => .object ⟨normFields required ps, Assoc.keys ps⟩
  | .array item => .array item.norm
  | .coerce inner => .coerce inner.norm
  | .nullable inner => .nullable inner.norm
  | .optional inner => .optional inner.norm
  | .default inner v => .default inner.norm v
  | .union options => .union (normAll options)
  | .discriminatedUnion d options => .discriminatedUnion d (normAll options)
  | .merge parts => .merge (normAll parts)
  | .extend base ⟨ps, required⟩ => .extend base.norm ⟨normFields required ps, Assoc.keys ps⟩
  | form => form

def normAll : List Validator → List Validator
  | [] => []
  | v :: vs => v.norm :: normAll vs

def normFields (required : List String) : List (String × Validator) → List (String × Validator)
  | [] => []
  | (name, v) :: ps =>
    (name, if required.contains name then v.norm else v.norm.optional) :: normFields required ps

end

def normField (f : String × Validator) : String × Validator := (f.1, f.2.norm)

theorem normAll_eq (vs : List Validator) : normAll vs = vs.map norm := by
  induction vs with
  | nil => rfl
  | cons v vs ih => rw [normAll, ih, List.map_cons]

theorem normFields_eq (required : List String) (ps : List (String × Validator)) :
    normFields required ps = (fields required ps).map normField := by
  induction ps with
  | nil => rfl
  | cons p ps ih =>
    obtain ⟨name, v⟩ := p
    have hnorm : v.optional.norm = v.norm.optional := by
      rw [optional, plain, norm, normForm]
      rfl
    rw [normFields, ih, fields, fields, List.map_cons, List.map_cons, normField]
    split <;> simp [hnorm]

theorem keys_fields (required : List String) (ps : List (String × Validator)) :
    Assoc.keys ((fields required ps).map normField) = Assoc.keys ps := by
  simp [Assoc.keys, fields, normField, Function.comp_def]

/-! ## Rendering normal forms -/

section Render

theorem renderAll_norm : ∀ {vs : List Validator}, (∀ v ∈ vs, v.norm.render = v.render) →
    renderAll (normAll vs) = renderAll vs
  | [], _ => rfl
  | v :: vs, h => by
    rw [normAll, renderAll, renderAll, h v List.mem_cons_self,
      renderAll_norm fun w hw => h w (List.mem_cons_of_mem _ hw)]

/-- A property that is not required is rendered with `optional`, which the normal form has
already. -/
theorem renderFields_norm {required names : List String} : ∀ {ps : List (String × Validator)},
    (∀ name ∈ Assoc.keys ps, names.contains name = true) →
      (∀ v ∈ Assoc.values ps, v.norm.render = v.render) →
        renderFields names (normFields required ps) = renderFields required ps
  | [], _, _ => rfl
  | (name, v) :: ps, hnames, h => by
    have hps : renderFields names (normFields required ps) = renderFields required ps :=
      renderFields_norm (fun n hn => hnames n (List.mem_cons_of_mem _ hn))
        fun w hw => h w (List.mem_cons_of_mem _ hw)
    rw [normFields, renderFields, renderFields, hnames name List.mem_cons_self, hps]
    have hv := h v List.mem_cons_self
    split
    · rw [hv]
      rfl
    · rw [render_optional, hv]
      rcases v.render with e | s
      · rfl
      · simp only [Outcome.ok_bind, if_true, String.append_empty, String.append_assoc]

theorem renderCoerced_norm (form : Form Validator) :
    (normForm form).renderCoerced = form.renderCoerced := by
  cases form with
  | object s | extend _ s =>
    obtain ⟨ps, required⟩ := s
    rfl
  | _ => rfl

/-- One case for each form. Only shapes change, and only in what is required. -/
theorem renderForm_norm {form : Form Validator}
    (h : ∀ v ∈ form.children, v.norm.render = v.render) :
    renderForm (normForm form) = renderForm form := by
  have hkeys : ∀ (ps : List (String × Validator)), ∀ name ∈ Assoc.keys ps,
      (Assoc.keys ps).contains name = true := fun ps name hname => List.contains_iff_mem.2 hname
  cases form with
  | object s =>
    obtain ⟨ps, required⟩ := s
    rw [normForm, renderForm, renderForm, renderFields_norm (hkeys ps) h]
  | coerce inner =>
    obtain ⟨form, d⟩ := inner
    rw [normForm, norm, renderForm, renderForm, renderCoerced_norm]
  | array inner | nullable inner | optional inner | default inner =>
    rw [normForm, renderForm, renderForm, h inner List.mem_cons_self]
  | union options =>
    rcases options with _ | ⟨v, _ | ⟨w, vs⟩⟩
    · rfl
    · rw [normForm, normAll, normAll, renderForm, renderForm, h v List.mem_cons_self]
    · have hall : renderAll (normAll (v :: w :: vs)) = renderAll (v :: w :: vs) := renderAll_norm h
      rw [normForm]
      simp only [normAll] at hall ⊢
      rw [renderForm_union, renderForm_union, hall]
  | discriminatedUnion d options =>
    have hall : renderAll (normAll options) = renderAll options := renderAll_norm h
    rw [normForm, renderForm, renderForm, hall]
  | merge parts =>
    rcases parts with _ | ⟨v, vs⟩
    · rfl
    · rw [normForm, normAll, renderForm, renderForm, h v List.mem_cons_self,
        renderAll_norm fun w hw => h w (List.mem_cons_of_mem _ hw)]
  | extend base s =>
    obtain ⟨ps, required⟩ := s
    rw [normForm, renderForm, renderForm, h base List.mem_cons_self,
      renderFields_norm (hkeys ps) fun v hv => h v (List.mem_cons_of_mem _ hv)]
  | _ => rfl

/-- The normal form of a validator is rendered as the validator is. -/
theorem render_norm (v : Validator) : v.norm.render = v.render := by
  induction v using induction_children with
  | h v ih =>
    obtain ⟨form, d⟩ := v
    rw [norm, render, render, renderForm_norm ih]

end Render

end Validator

end ZodGen
