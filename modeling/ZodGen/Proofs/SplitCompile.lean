import ZodGen.Proofs.CompileCongr
import ZodGen.Proofs.ComponentBindings
import ZodGen.Proofs.PathDocument

/-!
# Splitting before compiling

Compiling the document of a path gives what compiling the whole document gives for that path: the
same validators for its operations, and for the components that are kept. It holds as long as the
references in path items and components lead into components, for those are the references that a
split follows.
-/

namespace ZodGen

namespace Reference

/-- Whether a reference leads to a component or into one. -/
def intoComponent (r : String) : Bool :=
  match componentTarget r with
  | .ok (some _) => true
  | _ => false

theorem intoComponent_iff {r : String} :
    intoComponent r = true ↔ ∃ t, componentTarget r = .ok (some t) := by
  unfold intoComponent
  split
  · rename_i t ht
    simp [ht]
  · rename_i hnot
    simpa using hnot

end Reference

namespace Document

/-- Every reference in a path item or in a component leads into a component. -/
def PointsIntoComponents (doc : Value) : Prop :=
  ∀ v ∈ Assoc.values ((doc.obj? "paths").getD []) ++ (components doc).map Prod.snd,
    ∀ r ∈ v.refs, Reference.intoComponent r = true

instance (doc : Value) : Decidable (PointsIntoComponents doc) :=
  inferInstanceAs (Decidable (∀ v ∈ _, ∀ r ∈ Value.refs v, Reference.intoComponent r = true))

theorem schemas_eq_get? (doc : Value) : Module.schemas doc
    = ((Assoc.get? "schemas" ((doc.obj? "components").getD [])).bind Value.asObj?).getD [] := by
  unfold Module.schemas Value.obj?
  rcases doc.get? "components" with _ | v
  · rfl
  · cases v <;> rfl

theorem component?_of_mem_schemas {doc : Value} (hd : doc.distinctKeys = true)
    {m : String × Value} (hm : m ∈ Module.schemas doc) :
    component? doc ⟨"schemas", m.1⟩ = some m.2 := by
  unfold Module.schemas at hm
  rcases hc : doc.get? "components" with _ | cs <;> rw [hc] at hm
  · simp at hm
  · rcases hs : cs.obj? "schemas" with _ | entries <;>
      simp only [Option.bind_some, hs, Option.getD_none, Option.getD_some, List.not_mem_nil] at hm
    have hn := nodup_keys_of_obj? (distinctKeys_of_get? hd hc) hs
    rw [component?, hc, Option.bind_some, Value.get?_of_obj? hs]
    exact Assoc.get?_of_mem hn hm

namespace IsPart

variable {doc item part : Value} {path : String} {left : Components}

/-- The references of a path item and of what it reaches lead into components, if all references of
the document do. -/
theorem componentTarget_of_carries (h : IsPart doc path item left part)
    (hrefs : PointsIntoComponents doc) {r : String} (hr : Carries doc item left r) :
    ∃ t, Reference.componentTarget r = .ok (some t) := by
  rw [← Reference.intoComponent_iff]
  rcases hr with hr | ⟨t, v, hv, -, hr⟩
  · obtain ⟨items, hitems, hm⟩ := h.mem_paths
    refine hrefs item (List.mem_append_left _ ?_) r hr
    rw [hitems]
    exact List.mem_map_of_mem (f := Prod.snd) hm
  · rw [← find?_components h.distinct] at hv
    obtain ⟨m, hm, rfl⟩ := Option.map_eq_some_iff.1 hv
    exact hrefs m.2 (List.mem_append_right _ (List.mem_map_of_mem (List.mem_of_find?_eq_some hm)))
      r hr

/-- The whole document and the document of a path take the references that the path item or a
reached component has alike. -/
theorem alike (h : IsPart doc path item left part) (hrefs : PointsIntoComponents doc) :
    Reference.Alike (Carries doc item left) doc part := by
  have htarget : ∀ r, Carries doc item left r → ∃ t v, Reference.componentTarget r = .ok (some t)
      ∧ component? doc t = some v ∧ left.find? t = none := by
    intro r hr
    obtain ⟨t, ht⟩ := h.componentTarget_of_carries hrefs hr
    obtain ⟨v, hv, hleft⟩ := h.reached_of_carries hr ht
    exact ⟨t, v, ht, hv, hleft⟩
  refine ⟨fun r hr => ?_, fun r hr => h.mem_refs_of_carries hr, fun r hr => ?_,
    fun r w hr hw s hs => ?_⟩
  · rcases hr with hr | ⟨t, v, hv, -, hr⟩
    · exact h.refs_item_subset hr
    · exact refs_subset_of_component? hv hr
  · obtain ⟨t, v, ht, hv, hleft⟩ := htarget r hr
    exact resolve_of_component? ht hv (h.component?_of_reached hv hleft)
  · obtain ⟨t, v, ht, hv, hleft⟩ := htarget r hr
    exact .inr ⟨t, v, hv, hleft, refs_subset_of_resolve_component ht hv hw hs⟩

/-- The schema components of a part are those of the whole document that are reached. -/
theorem schemas_eq (h : IsPart doc path item left part) :
    Module.schemas part = reachedEntries left "schemas" (Module.schemas doc) := by
  rw [Module.schemas, h.get?_components, get?_componentMembers]
  by_cases hlen : left.length = (components doc).length
  · rw [if_neg (by simp [hlen]), h.left_eq hlen]
    refine (List.filter_eq_nil_iff.2 fun m hm => ?_).symm
    rw [find?_components h.distinct, component?_of_mem_schemas h.distinct hm]
    simp
  · rw [if_pos ⟨rfl, hlen⟩, schemas_eq_get?]
    show ((Assoc.get? "schemas" (keepReached doc left)).bind Value.asObj?).getD [] = _
    rw [get?_keepReached h.distinct]
    rcases Assoc.get? "schemas" ((doc.obj? "components").getD []) with _ | s
    · rfl
    · exact obj?_keptSection "schemas" s

end IsPart

end Document

/-! ## Operations -/

namespace Operation

theorem path_of_compile {c : Schema.Compiler} {op : Document.Operation} {cs : List Compiled}
    (h : compile c op = .ok cs) : ∀ x ∈ cs, x.path = op.path := by
  intro x hx
  obtain ⟨ps, -, h⟩ := Outcome.bind_eq_ok.1 h
  obtain ⟨ps', -, h⟩ := Outcome.bind_eq_ok.1 h
  obtain ⟨variants, -, h⟩ := Outcome.bind_eq_ok.1 h
  split at h
  · simp [fail] at h
  · obtain ⟨variant, -, hv⟩ := Outcome.exists_of_mem_mapM h hx
    obtain ⟨response, -, hv⟩ := Outcome.bind_eq_ok.1 hv
    cases hv
    rfl

/-- The operations of one path compile to the validators of that path. -/
theorem mapM_compile_filter {c : Schema.Compiler} (path : String) :
    ∀ {ops : List Document.Operation} {css : List (List Compiled)},
      ops.mapM (compile c) = .ok css →
      ∃ ds, (ops.filter (·.path == path)).mapM (compile c) = .ok ds
        ∧ ds.flatten = css.flatten.filter (·.path == path)
  | [], css, h => by
    cases h
    exact ⟨[], rfl, rfl⟩
  | op :: ops, css, h => by
    rw [List.mapM_cons] at h
    obtain ⟨cs, hcs, h⟩ := Outcome.bind_eq_ok.1 h
    obtain ⟨css', hcss, h⟩ := Outcome.bind_eq_ok.1 h
    cases h
    obtain ⟨ds, hds, hflat⟩ := mapM_compile_filter path hcss
    have hpath := path_of_compile hcs
    by_cases hp : op.path = path
    · refine ⟨cs :: ds, ?_, ?_⟩
      · rw [List.filter_cons_of_pos (by simpa using hp), List.mapM_cons, hcs, hds]
        rfl
      · rw [List.flatten_cons, List.flatten_cons, List.filter_append, ← hflat,
          List.filter_eq_self.2 fun x hx => by simpa [hpath x hx] using hp]
    · refine ⟨ds, ?_, ?_⟩
      · rw [List.filter_cons_of_neg (by simpa using hp), hds]
      · rw [List.flatten_cons, List.filter_append, ← hflat,
          List.filter_eq_nil_iff.2 fun x hx => by simpa [hpath x hx] using hp, List.nil_append]

end Operation

namespace Document

theorem path_of_mem_pathOperations {path : String} {item : Value} {op : Operation}
    (h : op ∈ pathOperations path item) : op.path = path := by
  unfold pathOperations at h
  split at h
  · obtain ⟨m, -, rfl⟩ := List.mem_map.1 h
    rfl
  · simp at h

theorem refsIn_of_mem_pathOperations {R : String → Prop} {path : String} {item : Value}
    (hR : ∀ r ∈ item.refs, R r) {op : Operation} (h : op ∈ pathOperations path item) :
    Operation.RefsIn R op := by
  unfold pathOperations at h
  split at h
  · rename_i ms
    obtain ⟨m, hm, rfl⟩ := List.mem_map.1 h
    constructor
    · intro p hp r hr
      simp only [] at hp
      rcases ha : (Value.obj ms).arr? "parameters" with _ | ps <;> rw [ha] at hp
      · simp at hp
      · exact hR r ((Schema.inside_of_arr? ha hp).2 hr)
    · intro r hr
      refine hR r ?_
      rw [Value.refs]
      exact Value.refs_subset_of_mem_members (List.mem_filter.1 hm).1 hr
  · simp at h

/-- The operations of a path are those of its path item, as no path has two. -/
theorem filter_operations {path : String} {item : Value} : ∀ {items : Assoc Value},
    (Assoc.keys items).Nodup → (path, item) ∈ items →
    (items.flatMap fun (p, i) => pathOperations p i).filter (·.path == path)
      = pathOperations path item
  | (p, i) :: items, hn, hm => by
    obtain ⟨hk, hn⟩ := List.nodup_cons.1 hn
    rw [List.flatMap_cons, List.filter_append]
    rcases List.mem_cons.1 hm with hm | hm
    · cases hm
      have hself : (pathOperations path item).filter (·.path == path)
          = pathOperations path item :=
        List.filter_eq_self.2 fun op ho => by simp [path_of_mem_pathOperations ho]
      have hrest : (items.flatMap fun (p, i) => pathOperations p i).filter (·.path == path)
          = [] := by
        refine List.filter_eq_nil_iff.2 fun op ho hp => ?_
        obtain ⟨m, hm, ho⟩ := List.mem_flatMap.1 ho
        rw [path_of_mem_pathOperations ho, beq_iff_eq] at hp
        have hkey : m.1 ∈ Assoc.keys items := List.mem_map_of_mem hm
        exact hk (hp ▸ hkey)
      rw [hself, hrest, List.append_nil]
    · have hkey : path ∈ Assoc.keys items := List.mem_map_of_mem (f := Prod.fst) hm
      have hne : p ≠ path := fun he => hk (he ▸ hkey)
      rw [filter_operations hn hm, List.filter_eq_nil_iff.2 fun op ho => ?_, List.nil_append]
      simpa [path_of_mem_pathOperations ho] using hne

end Document

/-! ## Modules -/

namespace Module

open Document (IsPart components)

variable {doc item part : Value} {path : String} {left : Document.Components}

/-- What a module is compiled from: the components, bound in order, and the operations of all paths
in order. -/
theorem compile_eq_ok {m : Module} : compile doc = .ok m ↔ ∃ items css,
    doc.obj? "paths" = some items
      ∧ compileComponents { root := doc } [] (schemas doc) = .ok m.components
      ∧ (items.flatMap fun (p, i) => Document.pathOperations p i).mapM
          (Operation.compile { root := doc }) = .ok css
      ∧ m.operations = css.flatten := by
  unfold compile Document.operations
  constructor
  · intro h
    obtain ⟨items, hitems, h⟩ := Outcome.bind_eq_ok.1 h
    obtain ⟨cs, hcs, h⟩ := Outcome.bind_eq_ok.1 h
    rw [hitems, Outcome.ok_bind, Outcome.ok_bind] at h
    obtain ⟨css, hcss, h⟩ := Outcome.bind_eq_ok.1 h
    cases h
    exact ⟨items, css, Document.paths_eq_ok.1 hitems, hcs, hcss, rfl⟩
  · rintro ⟨items, css, hitems, hcs, hcss, hops⟩
    rw [Document.paths_eq_ok.2 hitems]
    simp only [Outcome.ok_bind, hcs, hcss, ← hops]

/-- The module of a part has the validators that the whole document gives its path, and the
components that are reached, in order. -/
theorem compile_part (h : IsPart doc path item left part)
    (hrefs : Document.PointsIntoComponents doc) {m : Module} (hm : compile doc = .ok m) :
    ∃ mp, compile part = .ok mp ∧ mp.operations = m.operations.filter (·.path == path)
      ∧ mp.components.Sublist m.components := by
  obtain ⟨items, css, hitems, hcs, hcss, hops⟩ := compile_eq_ok.1 hm
  have halike := h.alike hrefs
  have hpart : part.obj? "paths" = some [(path, item)] := by
    rw [Value.obj?, h.get?_paths]
    rfl
  obtain ⟨items', hitems', hmem⟩ := h.mem_paths
  cases hitems.symm.trans hitems'
  have hfilter :=
    Document.filter_operations (Document.nodup_keys_of_obj? h.distinct hitems) hmem
  obtain ⟨ds, hds, hflat⟩ := Operation.mapM_compile_filter path hcss
  -- Operations refer to what the path item refers to, and there both documents are alike.
  have hops' : ([(path, item)].flatMap fun (p, i) => Document.pathOperations p i).mapM
      (Operation.compile { root := part }) = .ok ds := by
    rw [hfilter] at hds
    rw [← hds, List.flatMap_singleton]
    refine Outcome.mapM_congr fun op hop => Eq.symm ?_
    refine Operation.compile_congr (c := { root := doc }) (d := { root := part }) halike rfl ?_
    exact Document.refsIn_of_mem_pathOperations (fun r hr => .inl hr) hop
  -- Leaving components out frees names, so those that stay are bound as before.
  obtain ⟨ws, hws, hsub⟩ : ∃ ws, compileComponents { root := part } [] (schemas part) = .ok ws
      ∧ ws.Sublist m.components := by
    simp only [compileComponents_eq_ok, h.schemas_eq] at hcs ⊢
    refine hcs.sublist List.filter_sublist fun s hs => ?_
    obtain ⟨hs, hleft⟩ := List.mem_filter.1 hs
    refine Schema.Compiler.compile_congr (c := { root := doc }) (d := { root := part }) halike rfl
      s.2 {} fun r hr => .inr ⟨⟨"schemas", s.1⟩, s.2, ?_, by simpa using hleft, hr⟩
    exact Document.component?_of_mem_schemas h.distinct hs
  refine ⟨⟨ws, ds.flatten⟩, compile_eq_ok.2 ⟨_, ds, hpart, hws, hops', rfl⟩, ?_, hsub⟩
  rw [hops]
  exact hflat

/-! ## A document of two paths -/

section Kennel

open Schema (textSchema compileWith_textSchema)

/-- A schema that is a reference. -/
def referenceTo (name : String) : Value :=
  .obj [("$ref", .str ("#/components/schemas/" ++ name))]

def packSchema : Value := .obj [("type", .str "array"), ("items", referenceTo "Dog")]

/-- A response with a JSON body. -/
def jsonResponse (schema : Value) : Value :=
  .obj [("content", .obj [("application/json", .obj [("schema", schema)])])]

/-- An operation with one response and nothing else. -/
def answering (key : String) (response : Value) : Value :=
  .obj [("responses", .obj [(key, response)])]

/-- The validators of such an operation. -/
def compiledGet (path : String) (response : Validator) : Operation.Compiled :=
  ⟨path, "get", none, Operation.request "get" {} Shape.empty (.plain .undefined), response⟩

/-- Two paths, of which the first reaches two of the three components. -/
def kennel : Value := .obj
  [("paths", .obj
    [("/pack", .obj [("get", answering "200" (jsonResponse (referenceTo "Pack")))]),
     ("/ping", .obj [("get", answering "204" (.obj []))])]),
   ("components", .obj
    [("schemas", .obj [("Pack", packSchema), ("Cat", textSchema), ("Dog", textSchema)])])]

def kennelModule : Module where
  components := [("packSchema", ⟨.array ⟨.reference "dogSchema", none⟩, none⟩),
    ("catSchema", ⟨.string, none⟩), ("dogSchema", ⟨.string, none⟩)]
  operations :=
    [compiledGet "/pack"
      (Operation.branch (.code 200) Shape.empty ⟨.reference "packSchema", none⟩),
     compiledGet "/ping" (Operation.branch (.code 204) Shape.empty (.plain .undefined))]

variable (c : Schema.Compiler)

theorem compileWith_referenceTo (hb : c.bindingName = BindingName.ofReference)
    (pending : List String) (o : Schema.Options) (name binding : String)
    (hs : (Reference.schemaName? ("#/components/schemas/" ++ name)).isSome = true)
    (hn : BindingName.ofReference ("#/components/schemas/" ++ name) = .ok binding) :
    Schema.compileWith c pending o (referenceTo name) = .ok ⟨.reference binding, none⟩ := by
  rw [Schema.compileWith]
  show (if (Reference.schemaName? _).isSome = true then _ else _) = _
  rw [if_pos hs, hb, hn]
  rfl

theorem compileWith_packSchema (hb : c.bindingName = BindingName.ofReference)
    (pending : List String) (o : Schema.Options) : Schema.compileWith c pending o packSchema
      = .ok ⟨.array ⟨.reference "dogSchema", none⟩, none⟩ := by
  rw [Schema.compileWith]
  show (Schema.lower _ _ _ _ >>= _) = _
  rw [Schema.lower_eq]
  show ((Schema.compileWith _ _ _ (referenceTo "Dog") >>= _) >>= _) = _
  rw [compileWith_referenceTo c hb _ _ "Dog" "dogSchema" (by decide +kernel) (by decide +kernel)]
  rfl

theorem compileComponents_kennel (hb : c.bindingName = BindingName.ofReference) :
    compileComponents c [] (schemas kennel) = .ok kennelModule.components := by
  have hpack : bindingFor [] "Pack" = .ok "packSchema" := by decide +kernel
  have hcat : bindingFor [("packSchema", "Pack")] "Cat" = .ok "catSchema" := by decide +kernel
  have hdog : bindingFor [("packSchema", "Pack"), ("catSchema", "Cat")] "Dog"
      = .ok "dogSchema" := by decide +kernel
  show compileComponents c [] [("Pack", packSchema), ("Cat", textSchema), ("Dog", textSchema)] = _
  simp only [compileComponents, List.nil_append, List.cons_append, hpack, hcat, hdog,
    Outcome.ok_bind, Schema.Compiler.compile, compileWith_packSchema c hb, compileWith_textSchema]
  rfl

theorem compile_answering (path : String) {key : String} {raw : Value} {s : Operation.Status}
    {v : Validator} (h : Operation.responseBranches c none false key raw = .ok (s, [v])) :
    Operation.compile c ⟨path, "get", answering key raw, []⟩ = .ok [compiledGet path v] := by
  have hr : Operation.responses c none false [(key, raw)] = .ok v := by
    unfold Operation.responses
    simp only [List.mapM_cons, List.mapM_nil, h, Outcome.ok_bind]
    cases s <;> rfl
  show ((Operation.responses c none false [(key, raw)] >>= _) >>= _) = _
  rw [hr]
  rfl

theorem responseBranches_json {schema : Value} {v : Validator}
    (h : c.compile schema {} = .ok v) :
    Operation.responseBranches c none false "200" (jsonResponse schema)
      = .ok (.code 200, [Operation.branch (.code 200) Shape.empty v]) := by
  have hf : Reference.resolveObject c.root (jsonResponse schema) = .ok (jsonResponse schema) := by
    rw [Reference.resolveObject, Reference.follow]
    rfl
  show (Reference.resolveObject c.root (jsonResponse schema) >>= _) = _
  rw [hf]
  show ((c.compile schema {} >>= _) >>= _) >>= _ = _
  rw [h]
  rfl

theorem responseBranches_empty : Operation.responseBranches c none false "204" (.obj [])
    = .ok (.code 204, [Operation.branch (.code 204) Shape.empty (.plain .undefined)]) := by
  have hf : Reference.resolveObject c.root (.obj []) = .ok (.obj []) := by
    rw [Reference.resolveObject, Reference.follow]
    rfl
  show (Reference.resolveObject c.root (.obj []) >>= _) = _
  rw [hf]
  rfl

end Kennel

theorem compile_kennel : compile kennel = .ok kennelModule := by
  have hpack := compile_answering { root := kennel } "/pack" (responseBranches_json _
    (compileWith_referenceTo _ rfl _ {} "Pack" "packSchema" (by decide +kernel)
      (by decide +kernel)))
  have hping := compile_answering { root := kennel } "/ping" (responseBranches_empty _)
  have hops := Outcome.mapM_eq_ok.2 (.cons hpack (.cons hping .nil))
  exact compile_eq_ok.2 ⟨_, _, rfl, compileComponents_kennel _ rfl, hops, rfl⟩

theorem exists_split_kennel : ∃ parts, Document.split kennel = .ok parts
    ∧ Assoc.keys parts = ["/pack", "/ping"] := by
  have hkeys : (Document.split kennel).map Assoc.keys = .ok ["/pack", "/ping"] := by
    decide +kernel
  rcases hs : Document.split kennel with e | parts <;> rw [hs] at hkeys
  · cases hkeys
  · exact ⟨parts, rfl, Except.ok.inj hkeys⟩

/-- Splitting commutes with compiling. When the references in path items and components lead into
components, the module of each path has exactly the operations that the module of the whole document
has for the path, and components of it in the same order. -/
theorem compile_of_split {doc : Value} (hd : doc.distinctKeys = true)
    (hrefs : Document.PointsIntoComponents doc) {m : Module} (hm : compile doc = .ok m)
    {parts : Assoc Value} (hs : Document.split doc = .ok parts) :
    ∀ p ∈ parts, ∃ mp, compile p.2 = .ok mp
      ∧ mp.operations = m.operations.filter (·.path == p.1)
      ∧ mp.components.Sublist m.components := by
  intro p hp
  obtain ⟨item, left, h⟩ := Document.isPart_of_split hd hs hp
  exact compile_part h hrefs hm

theorem compile_of_split_kennel : ∃ parts, compile kennel = .ok kennelModule
    ∧ Document.split kennel = .ok parts ∧ Assoc.keys parts = ["/pack", "/ping"]
    ∧ ∀ p ∈ parts, ∃ mp, compile p.2 = .ok mp
      ∧ mp.operations = kennelModule.operations.filter (·.path == p.1)
      ∧ mp.components.Sublist kennelModule.components := by
  obtain ⟨parts, hs, hkeys⟩ := exists_split_kennel
  exact ⟨parts, compile_kennel, hs, hkeys,
    compile_of_split (by decide +kernel) (by decide +kernel) compile_kennel hs⟩

end Module

end ZodGen
