import ZodGen.Proofs.TwoRuns

/-!
# Numbers and booleans that arrive as text

The options for a query and those for a header differ in name only. Either way a schema is accepted
when it is accepted without them, and its validator is the plain one, except that every number and
boolean in it is read from text (`compile_uncoerced`).

That the plain validator coerces nothing needs no argument about the compiler. The other validator
is the plain one with its leaves wrapped, and the compiler wraps nothing but a number or boolean
(`Form.Node`), so a coercion in the plain validator would have been wrapped a second time.
-/

namespace ZodGen

/-- A form without its coercion. -/
def Form.uncoerce : Form Validator → Form Validator
  | .coerce inner => inner.form
  | form => form

theorem Form.uncoerce_of_ne {form : Form Validator} (h : ∀ inner, form ≠ .coerce inner) :
    form.uncoerce = form := by
  cases form with
  | coerce inner => exact (h inner rfl).elim
  | _ => rfl

theorem Form.children_of_isPrimitive {α : Type} {form : Form α} (h : form.isPrimitive = true) :
    form.children = [] := by
  cases form <;> simp_all [isPrimitive, children]

namespace Validator

/-- A validator with every coercion in it replaced by what it coerces. Descriptions stay. -/
def uncoerced (v : Validator) : Validator := v.mapNodes Form.uncoerce

/-- Every number and boolean in a validator stands directly in a coercion. -/
def ReadsText (v : Validator) : Prop :=
  v.form.isPrimitive = false ∧ ∀ node ∈ v.nodes, ∀ child ∈ node.children,
    child.form.isPrimitive = true → node = .coerce child

/-! ## Wrapping the leaves -/

section Wrap

theorem mapForm_of_isPrimitive {form : Form Validator} (h : form.isPrimitive = true) :
    mapForm (Form.adapt {} .query) form = .coerce (.plain form) := by
  rw [mapForm_eq, Form.map_of_isPrimitive h, Form.adapt, h]
  rfl

theorem form_adapt (v : Validator) :
    (v.adapt {} .query).form = mapForm (Form.adapt {} .query) v.form := by
  obtain ⟨form, d⟩ := v
  rw [adapt_mk]

theorem isPrimitive_adapt (v : Validator) : (v.adapt {} .query).form.isPrimitive = false := by
  rw [form_adapt]
  by_cases h : v.form.isPrimitive = true
  · rw [mapForm_of_isPrimitive h]
    rfl
  · rw [mapForm_adapt (by simpa using h), Form.isPrimitive_map]
    simpa using h

theorem readsText_adapt (v : Validator) : (v.adapt {} .query).ReadsText := by
  refine ⟨isPrimitive_adapt v, ?_⟩
  induction v using induction_children with
  | h v ih =>
    intro node hnode child hchild hp
    rw [nodes_eq, form_adapt] at hnode
    by_cases h : v.form.isPrimitive = true
    · rw [mapForm_of_isPrimitive h, mem_nodesOfForm] at hnode
      simp only [Form.children, List.mem_singleton, exists_eq_left] at hnode
      rcases hnode with rfl | hnode
      · rw [List.mem_singleton.1 hchild]
      · rw [nodes_eq, mem_nodesOfForm] at hnode
        simp only [plain, Form.children_of_isPrimitive h, List.not_mem_nil, false_and, exists_false,
          or_false] at hnode
        rw [hnode, Form.children_of_isPrimitive h] at hchild
        cases hchild
    · rw [mapForm_adapt (by simpa using h), mem_nodesOfForm, Form.children_map] at hnode
      rcases hnode with rfl | ⟨w, hw, hnode⟩
      · rw [Form.children_map] at hchild
        obtain ⟨w, -, rfl⟩ := List.mem_map.1 hchild
        rw [isPrimitive_adapt] at hp
        cases hp
      · obtain ⟨u, hu, rfl⟩ := List.mem_map.1 hw
        exact ih u hu node hnode child hchild hp

/-- If the compiler could build the wrapped validator, there is no coercion in the other one. -/
theorem coerce_notMem_nodes {P : String → Prop} {v : Validator}
    (h : (v.adapt {} .query).Built P) (inner : Validator) : .coerce inner ∉ v.nodes := by
  induction v using induction_children with
  | h v ih =>
    intro hnode
    rw [nodes_eq, mem_nodesOfForm] at hnode
    rcases hnode with hform | ⟨w, hw, hnode⟩
    · rw [Built, form_adapt, ← hform, mapForm_adapt rfl, Form.map] at h
      have hinner := isPrimitive_adapt inner
      generalize inner.adapt {} .query = w at h hinner
      cases (Form.built_iff.1 h).1 <;> cases hinner
    · refine ih w hw ?_ hnode
      have hp : v.form.isPrimitive = false := by
        by_contra hp
        rw [Form.children_of_isPrimitive (by simpa using hp)] at hw
        cases hw
      rw [Built, form_adapt, mapForm_adapt hp, Form.built_iff, Form.children_map] at h
      exact h.2 _ (List.mem_map_of_mem hw)

/-- Taking the reading of text away again gives the validator back, if it did not read text
before. -/
theorem uncoerced_adapt {v : Validator} (h : ∀ inner, .coerce inner ∉ v.nodes) :
    (v.adapt {} .query).uncoerced = v := by
  induction v using induction_children with
  | h v ih =>
    have hchildren : ∀ w ∈ v.form.children, (uncoerced ∘ adapt {} .query) w = w := by
      intro w hw
      refine ih w hw fun inner hnode => h inner ?_
      rw [nodes_eq, mem_nodesOfForm]
      exact .inr ⟨w, hw, hnode⟩
    obtain ⟨form, d⟩ := v
    rw [adapt_mk, uncoerced, mapNodes, mapForm_eq]
    by_cases hp : form.isPrimitive = true
    · rw [mapForm_of_isPrimitive hp, Form.map, Form.uncoerce, plain, mapNodes, mapForm_eq,
        Form.map_of_isPrimitive hp, Form.uncoerce_of_ne]
      rintro inner rfl
      cases hp
    · rw [mapForm_adapt (by simpa using hp), Form.map_map]
      rw [show form.map (mapNodes Form.uncoerce ∘ adapt {} .query) = form from
        Form.map_eq_self hchildren, Form.uncoerce_of_ne]
      rintro inner rfl
      refine h inner ?_
      rw [nodes_eq, mem_nodesOfForm]
      exact .inl rfl

end Wrap

end Validator

namespace Schema

/-- A query and a header are read alike. A schema is accepted for them when it is accepted without
options, and otherwise it fails for the same cause. The validator for them reads every number and
boolean from text. Without its coercions it is the plain validator, which has none. -/
theorem compile_uncoerced (c : Compiler) (schema : Value) :
    c.compile schema .query = c.compile schema .header
    ∧ (∀ e, c.compile schema {} = .error e →
      ∃ e', c.compile schema .query = .error e' ∧ e'.cause = e.cause)
    ∧ ∀ v, c.compile schema {} = .ok v → ∃ w, c.compile schema .query = .ok w
      ∧ w.uncoerced = v ∧ w.ReadsText ∧ ∀ inner, .coerce inner ∉ v.nodes := by
  have hadapts : Adapts (fun _ => False) {} .query (c.compile schema {})
      (c.compile schema .query) := c.adapts_compile schema (by decide)
  refine ⟨(c.adapts_compile schema (by decide)).eq rfl, fun e he => hadapts.eq_error he,
    fun v hv => ?_⟩
  have hquery := hadapts.eq_ok hv
  have hbuilt : (v.adapt {} .query).Built fun _ => True := Compiler.built_compile
    (R := fun _ => True) (fun _ _ _ _ _ _ => trivial) (fun _ _ _ _ _ => trivial)
    (fun _ _ => trivial) hquery
  have hplain := Validator.coerce_notMem_nodes hbuilt
  exact ⟨_, hquery, Validator.uncoerced_adapt hplain, Validator.readsText_adapt v, hplain⟩

/-- A page of a list, and marks that an entry has. -/
def listing : Value :=
  .obj [("properties", .obj [
    ("page", .obj [("type", .str "integer"), ("description", .str "from 1")]),
    ("marks", .obj [("type", .str "array"), ("items", .obj [("type", .str "boolean")])])])]

def listingValidator : Validator :=
  .object ⟨[("page", ⟨.number ⟨none, none⟩, some "from 1"⟩),
    ("marks", .plain (.array (.plain .boolean)))], []⟩

theorem compile_listing (c : Compiler) : c.compile listing {} = .ok listingValidator := by
  have hpage : ∀ pending, compileWith c pending {}
      (.obj [("type", .str "integer"), ("description", .str "from 1")])
        = .ok ⟨.number ⟨none, none⟩, some "from 1"⟩ := by
    intro pending
    rw [compileWith_eq_lowerBy _ _ _ rfl]
    rfl
  have hmark : ∀ pending, compileWith c pending {} (.obj [("type", .str "boolean")])
      = .ok (.plain .boolean) := by
    intro pending
    rw [compileWith_eq_lowerBy _ _ _ rfl]
    rfl
  have hmarks : ∀ pending, compileWith c pending {}
      (.obj [("type", .str "array"), ("items", .obj [("type", .str "boolean")])])
        = .ok (.plain (.array (.plain .boolean))) := by
    intro pending
    rw [compileWith_eq_lowerBy _ _ _ rfl]
    show ((compileWith _ _ _ (.obj [("type", .str "boolean")]) >>= _) >>= _) = _
    rw [hmark]
    rfl
  rw [Compiler.compile, compileWith_eq_lowerBy _ _ _ rfl]
  show ((compileMembers _ _ _ [("page", _), ("marks", _)] >>= _) >>= _) = _
  rw [compileMembers, hpage, compileMembers, hmarks, compileMembers]
  rfl

/-- A document with the schema of a level, which is a number. -/
def gauges : Value := .obj [("level", .obj [("type", .str "number")])]

/-- A level told apart by its unit, although a number has no properties. -/
def unitOfLevel : Value :=
  .obj [("oneOf", .arr [.obj [("$ref", .str "#/level")]]),
    ("discriminator", .obj [("propertyName", .str "unit"),
      ("mapping", .obj [("metre", .str "#/level")])])]

theorem compile_unitOfLevel : Compiler.compile { root := gauges } unitOfLevel {}
    = fail .invalidDiscriminatedUnion "#/level lowers to number, expected object" := by
  have hlevel : expand { root := gauges } (unitOfLevel.refs ++ gauges.refs) {} true "#/level"
      = .ok (.plain (.number ⟨none, none⟩)) := by
    have hresolve : Reference.resolve gauges "#/level" = .ok (.obj [("type", .str "number")]) :=
      Reference.resolve_eq_ok.2 ⟨["level"], by decide +kernel, rfl⟩
    rw [expand, dif_pos (by decide)]
    simp only [hresolve]
    show compileWith _ _ _ _ = _
    rw [compileWith_eq_lowerBy _ _ _ rfl]
    rfl
  rw [Compiler.compile, compileWith_eq_lowerBy _ _ _ rfl]
  show ((variants _ _ _ _ "unit" _ >>= _) >>= _) = _
  rw [variants_eq_mapM]
  show ((List.mapM _ [("#/level", "metre")] >>= _) >>= _) = _
  rw [List.mapM_cons, hlevel]
  rfl

/-- The listing is accepted for a query, and the level is refused for the cause it has without
options, although the message names another form. -/
theorem compile_uncoerced_listing :
    (∃ w, Compiler.compile { root := gauges } listing .query = .ok w
      ∧ w.uncoerced = listingValidator ∧ w.ReadsText)
    ∧ ∃ e, Compiler.compile { root := gauges } unitOfLevel .header = .error e
      ∧ e.cause = .invalidDiscriminatedUnion := by
  obtain ⟨-, -, hlisting⟩ := compile_uncoerced { root := gauges } listing
  obtain ⟨heq, hlevel, -⟩ := compile_uncoerced { root := gauges } unitOfLevel
  obtain ⟨w, hw, huncoerced, htext, -⟩ := hlisting _ (compile_listing _)
  obtain ⟨e, he, hcause⟩ := hlevel _ compile_unitOfLevel
  exact ⟨⟨w, hw, huncoerced, htext⟩, e, heq ▸ he, hcause⟩

end Schema

end ZodGen
