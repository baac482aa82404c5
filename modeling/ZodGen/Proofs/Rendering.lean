import ZodGen.Module.Render
import ZodGen.Proofs.Nodes
import ZodGen.Proofs.SplitCompile

/-!
# What can be rendered

A validator is rendered unless one of its nodes coerces something other than a number or a boolean,
or is a union or a merge of nothing (`exists_render_iff`). The compiler builds no such node, so a
module that is compiled is always rendered (`render_of_compile`).
-/

namespace ZodGen

/-- A number or a boolean, the forms that can be coerced from text. -/
def Form.coercible {α : Type} : Form α → Bool
  | .number _ => true
  | .boolean => true
  | _ => false

/-- A node at which rendering does not fail. -/
structure Form.Renders (form : Form Validator) : Prop where
  coerce : ∀ inner, form = .coerce inner → inner.form.coercible
  union : form ≠ .union []
  merge : form ≠ .merge []

theorem Form.renders_iff {form : Form Validator} : form.Renders
    ↔ (∀ inner, form = .coerce inner → inner.form.coercible) ∧ form ≠ .union []
      ∧ form ≠ .merge [] :=
  ⟨fun h => ⟨h.coerce, h.union, h.merge⟩, fun h => ⟨h.1, h.2.1, h.2.2⟩⟩

/-! ## The failing nodes -/

namespace Validator

section Render

theorem exists_bind_iff {α β : Type} {x : Outcome α} {f : α → β} :
    (∃ b, (do .ok (f (← x)) : Outcome β) = .ok b) ↔ ∃ a, x = .ok a := by
  rcases x with e | a <;> simp

theorem exists_renderAll_iff : ∀ {vs : List Validator},
    (∃ codes, renderAll vs = .ok codes) ↔ ∀ v ∈ vs, ∃ code, v.render = .ok code
  | [] => by simp [renderAll]
  | v :: vs => by
    rw [renderAll, List.forall_mem_cons, ← exists_renderAll_iff]
    rcases v.render with e | code
    · simp
    · simp [exists_bind_iff]

theorem exists_renderFields_iff (required : List String) : ∀ {ps : List (String × Validator)},
    (∃ codes, renderFields required ps = .ok codes)
      ↔ ∀ v ∈ Assoc.values ps, ∃ code, v.render = .ok code
  | [] => by simp [renderFields, Assoc.values]
  | (name, v) :: ps => by
    rw [Assoc.values, List.map_cons, List.forall_mem_cons, ← Assoc.values,
      ← exists_renderFields_iff required, renderFields]
    rcases v.render with e | code
    · simp
    · simp [exists_bind_iff]

theorem exists_renderCoerced_iff {form : Form Validator} :
    (∃ code, form.renderCoerced = .ok code) ↔ form.coercible = true := by
  cases form <;> simp [Form.renderCoerced, Form.coercible, fail]

theorem renderForm_union (v w : Validator) (vs : List Validator) :
    renderForm (.union (v :: w :: vs)) = (do
      .ok ("z.union([" ++ ", ".intercalate (← renderAll (v :: w :: vs)) ++ "])")) := by
  rw [renderForm]
  all_goals simp

/-- A form is rendered exactly if it has what its kind needs and its parts are rendered. One case
for each form. -/
theorem exists_renderForm_iff {form : Form Validator} :
    (∃ code, renderForm form = .ok code)
      ↔ form.Renders ∧ ∀ v ∈ form.children, ∃ code, v.render = .ok code := by
  rw [Form.renders_iff]
  cases form with
  | object s =>
    obtain ⟨ps, required⟩ := s
    rw [renderForm, exists_bind_iff, exists_renderFields_iff]
    simp [Form.children]
  | array item | nullable item | optional item | default item =>
    rw [renderForm, exists_bind_iff]
    simp [Form.children]
  | coerce inner =>
    obtain ⟨form, d⟩ := inner
    rw [renderForm, exists_renderCoerced_iff]
    refine ⟨fun h => ?_, fun h => h.1.1 _ rfl⟩
    -- A number or a boolean has no part that could fail.
    cases form <;> simp_all [Form.coercible, Form.children, render, renderForm]
  | union options =>
    rcases options with _ | ⟨v, _ | ⟨w, vs⟩⟩
    · simp [renderForm, fail]
    · simp [renderForm, Form.children]
    · rw [renderForm, exists_bind_iff, exists_renderAll_iff]
      · simp [Form.children]
      · simp
      · simp
  | discriminatedUnion d options =>
    rw [renderForm, exists_bind_iff, exists_renderAll_iff]
    simp [Form.children]
  | merge parts =>
    rcases parts with _ | ⟨v, vs⟩
    · simp [renderForm, fail]
    · rw [renderForm]
      rcases hv : v.render with e | code
      · simp [Form.children, hv]
      · rw [Outcome.ok_bind, exists_bind_iff, exists_renderAll_iff]
        simp [Form.children, hv]
  | extend base s =>
    obtain ⟨ps, required⟩ := s
    rw [renderForm]
    rcases hb : base.render with e | code
    · simp [Form.children, hb]
    · rw [Outcome.ok_bind, exists_bind_iff, exists_renderFields_iff]
      simp [Form.children, hb]
  | _ => simp [renderForm, Form.children]

/-- A validator is rendered unless one of its nodes fails. -/
theorem exists_render_iff (v : Validator) :
    (∃ code, v.render = .ok code) ↔ ∀ node ∈ v.nodes, node.Renders := by
  induction v using induction_children with
  | h v ih =>
    have hrender : (∃ code, v.render = .ok code) ↔ ∃ code, renderForm v.form = .ok code := by
      obtain ⟨form, d⟩ := v
      rw [render, exists_bind_iff]
    rw [hrender, exists_renderForm_iff, nodes_eq]
    simp only [mem_nodesOfForm]
    constructor
    · rintro ⟨hform, hchildren⟩ node (rfl | ⟨w, hw, hnode⟩)
      · exact hform
      · exact (ih w hw).1 (hchildren w hw) node hnode
    · intro h
      exact ⟨h _ (.inl rfl), fun w hw => (ih w hw).2 fun node hn => h node (.inr ⟨w, hw, hn⟩)⟩

end Render

theorem Built.renders {P : String → Prop} {v : Validator} (h : v.Built P) :
    ∀ node ∈ v.nodes, node.Renders := by
  intro node hnode
  rw [Form.renders_iff]
  cases built_iff.1 h node hnode <;> simp_all [Form.coercible, plain]

end Validator

/-! ## Compiled modules -/

open Validator (exists_render_iff)

/-- Whatever the names are, the compiler builds nothing that fails. -/
theorem Schema.Compiler.renders_compile {c : Compiler} {schema : Value} {o : Options}
    {v : Validator} (h : c.compile schema o = .ok v) : ∀ node ∈ v.nodes, node.Renders :=
  (built_compile (R := fun _ => True) (P := fun _ => True) (fun _ _ _ _ _ _ => trivial)
    (fun _ _ _ _ _ => trivial) (fun _ _ => trivial) h).renders

theorem Operation.renders_compile {c : Schema.Compiler} {op : Document.Operation}
    {cs : List Compiled} (h : compile c op = .ok cs) : ∀ x ∈ cs,
      (∀ node ∈ x.request.nodes, node.Renders) ∧ ∀ node ∈ x.response.nodes, node.Renders := by
  intro x hx
  have hbuilt := built_compile (R := fun _ => True) (P := fun _ => True)
    (fun _ _ _ _ _ _ => trivial) (fun _ _ _ _ _ => trivial)
    ⟨fun _ _ _ _ => trivial, fun _ _ => trivial⟩ h x hx
  exact ⟨hbuilt.1.renders, hbuilt.2.renders⟩

namespace Module

/-- The validators of the components, then those of the operations. -/
def validators (m : Module) : List Validator :=
  Assoc.values m.components ++ m.operations.flatMap fun op => [op.request, op.response]

theorem exists_operationSections {ops : List Operation.Compiled}
    (h : ∀ op ∈ ops, (∃ code, op.request.render = .ok code)
      ∧ ∃ code, op.response.render = .ok code) :
    ∃ sections, operationSections ops = .ok sections := by
  unfold operationSections
  split
  · obtain ⟨⟨request, hrequest⟩, response, hresponse⟩ := h _ List.mem_cons_self
    rw [hrequest, hresponse]
    exact ⟨_, rfl⟩
  · obtain ⟨requests, hrequests⟩ := Outcome.exists_mapM fun op hop => (h op hop).1
    obtain ⟨responses, hresponses⟩ := Outcome.exists_mapM fun op hop => (h op hop).2
    rw [hrequests, hresponses]
    exact ⟨_, rfl⟩

/-- A module is rendered when its validators are. -/
theorem exists_render {m : Module} (h : ∀ v ∈ m.validators, ∃ code, v.render = .ok code)
    (exported : Bool) : ∃ text, m.render exported = .ok text := by
  have hcomponents : ∀ b ∈ m.components, ∃ code, b.2.render = .ok code := fun b hb =>
    h b.2 (List.mem_append_left _ (List.mem_map_of_mem hb))
  have hoperations : ∀ op ∈ m.operations, ∀ v ∈ [op.request, op.response],
      ∃ code, v.render = .ok code := fun op hop v hv =>
    h v (List.mem_append_right _ (List.mem_flatMap.2 ⟨op, hop, hv⟩))
  obtain ⟨lines, hlines⟩ := Outcome.exists_mapM
    (f := fun b : String × Validator => do .ok (componentLine exported b.1 (← b.2.render)))
    fun b hb => Validator.exists_bind_iff.2 (hcomponents b hb)
  obtain ⟨sections, hsections⟩ := exists_operationSections fun op hop =>
    ⟨hoperations op hop _ (by simp), hoperations op hop _ (by simp)⟩
  rw [render, Module.sections, hlines, hsections]
  exact ⟨_, rfl⟩

/-- The validators of a module that compiles can be rendered, in every node. -/
theorem renders_validators {doc : Value} {m : Module} (h : compile doc = .ok m) :
    ∀ v ∈ m.validators, ∀ node ∈ v.nodes, node.Renders := by
  obtain ⟨items, css, -, hcomponents, hcss, hops⟩ := compile_eq_ok.1 h
  intro v hv
  rcases List.mem_append.1 hv with hv | hv
  · obtain ⟨b, hb, rfl⟩ := List.mem_map.1 hv
    obtain ⟨s, -, -, hs⟩ := (compileComponents_eq_ok.1 hcomponents).exists_schema hb
    exact Schema.Compiler.renders_compile hs
  · obtain ⟨x, hx, hv⟩ := List.mem_flatMap.1 hv
    rw [hops] at hx
    obtain ⟨cs, hcs, hx⟩ := List.mem_flatten.1 hx
    obtain ⟨op, -, hop⟩ := Outcome.exists_of_mem_mapM hcss hcs
    have hrenders := Operation.renders_compile hop x hx
    simp only [List.mem_cons, List.not_mem_nil, or_false] at hv
    rcases hv with rfl | rfl
    · exact hrenders.1
    · exact hrenders.2

/-- A document that compiles is always rendered. No node of its validators coerces anything but a
number or a boolean, or is a union or a merge of nothing, and the same holds of whatever the
compiler makes of a schema or an operation. -/
theorem render_of_compile {doc : Value} {m : Module} (h : compile doc = .ok m) :
    (∀ options : Options, ∃ text, m.render options.exportComponents = .ok text)
      ∧ (∀ v ∈ m.validators, ∀ node ∈ v.nodes, node.Renders)
      ∧ (∀ (c : Schema.Compiler) (schema : Value) (o : Schema.Options) (v : Validator),
          c.compile schema o = .ok v → ∀ node ∈ v.nodes, node.Renders)
      ∧ ∀ (c : Schema.Compiler) (op : Document.Operation) (cs : List Operation.Compiled),
          Operation.compile c op = .ok cs → ∀ x ∈ cs, ∀ v ∈ [x.request, x.response],
            ∀ node ∈ v.nodes, node.Renders := by
  have hrenders := renders_validators h
  refine ⟨fun options => exists_render (fun v hv => ?_) _, hrenders,
    fun c schema o v hv => Schema.Compiler.renders_compile hv, fun c op cs hcs x hx v hv => ?_⟩
  · exact (exists_render_iff v).2 (hrenders v hv)
  · simp only [List.mem_cons, List.not_mem_nil, or_false] at hv
    rcases hv with rfl | rfl
    · exact (Operation.renders_compile hcs x hx).1
    · exact (Operation.renders_compile hcs x hx).2

section Clinic

def pageSchema : Value := .obj [("type", .str "integer"), ("nullable", .bool true)]

def pageParameter : Value :=
  .obj [("name", .str "page"), ("in", .str "query"), ("schema", pageSchema)]

/-- An operation with a parameter that is coerced and two responses. -/
def visits : Document.Operation :=
  ⟨"/visits", "get", .obj [("parameters", .arr [pageParameter]),
    ("responses", .obj [("204", .obj []), ("default", .obj [])])], []⟩

def clinic : Value := .obj [("paths", .obj [(visits.path, .obj [(visits.method, visits.body)])])]

def pageValidator : Validator :=
  ⟨.nullable (.plain (.coerce (.plain (.number ⟨none, none⟩)))), none⟩

def emptyBranch (status : Operation.Status) : Validator :=
  Operation.branch status Shape.empty (.plain .undefined)

def clinicModule : Module where
  components := []
  operations := [⟨visits.path, visits.method, none,
    Operation.request "get" { query := ⟨[("page", pageValidator)], []⟩ } Shape.empty
      (.plain .undefined),
    .plain (.union [emptyBranch (.code 204), emptyBranch .default])⟩]

variable (c : Schema.Compiler)

theorem addParameter_page (label : String) :
    Operation.addParameter c label {} pageParameter
      = .ok { query := ⟨[("page", pageValidator)], []⟩ } := by
  have hschema : c.compile pageSchema .query = .ok pageValidator := by
    rw [Schema.Compiler.compile, Schema.compileWith]
    show (Schema.lower _ _ _ _ >>= _) = _
    rw [Schema.lower_eq]
    rfl
  show (c.compile pageSchema .query >>= _) = _
  rw [hschema]
  rfl

theorem responseBranches_of_classify {key : String} {status : Operation.Status}
    (h : Operation.classify key = .ok status) :
    Operation.responseBranches c none false key (.obj []) = .ok (status, [emptyBranch status]) := by
  have hraw : Reference.resolveObject c.root (.obj []) = .ok (.obj []) := by
    rw [Reference.resolveObject, Reference.follow]
    rfl
  unfold Operation.responseBranches
  rw [h, hraw]
  rfl

theorem compile_visits : Operation.compile c visits = .ok clinicModule.operations := by
  have hmerged : Operation.mergedParameters c.root visits = .ok [pageParameter] := by
    have hraw : Reference.resolveObject c.root pageParameter = .ok pageParameter := by
      rw [Reference.resolveObject, Reference.follow]
      rfl
    show (List.mapM (Reference.resolveObject c.root) [pageParameter] >>= _) = _
    rw [List.mapM_cons, List.mapM_nil, hraw]
    rfl
  have hresponses : Operation.responses c none false [("204", .obj []), ("default", .obj [])]
      = .ok (.plain (.union [emptyBranch (.code 204), emptyBranch .default])) := by
    have hcode : Operation.classify "204" = .ok (.code 204) := by decide +kernel
    have hdefault : Operation.classify "default" = .ok .default := rfl
    have hfound : [("204", .obj []), ("default", .obj [])].mapM
        (fun m : String × Value => Operation.responseBranches c none false m.1 m.2)
          = .ok [(.code 204, [emptyBranch (.code 204)]), (.default, [emptyBranch .default])] :=
      Outcome.mapM_eq_ok.2 (.cons (responseBranches_of_classify c hcode)
        (.cons (responseBranches_of_classify c hdefault) .nil))
    show (List.mapM _ _ >>= _) = _
    rw [hfound]
    rfl
  unfold Operation.compile
  rw [hmerged, Outcome.ok_bind, List.foldlM_cons, addParameter_page]
  show (Operation.responses c none false _ >>= _) >>= _ = _
  rw [hresponses]
  rfl

end Clinic

theorem render_of_compile_clinic : compile clinic = .ok clinicModule
    ∧ ∃ text, clinicModule.render false = .ok text := by
  have h : compile clinic = .ok clinicModule := by
    have hops := Outcome.mapM_eq_ok.2 (.cons (compile_visits { root := clinic }) .nil)
    exact compile_eq_ok.2 ⟨_, _, rfl, rfl, hops, rfl⟩
  exact ⟨h, (render_of_compile h).1 {}⟩

end Module

end ZodGen
