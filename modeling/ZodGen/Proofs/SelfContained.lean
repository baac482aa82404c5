import Mathlib.Data.List.Sublists
import ZodGen.Module.Generate
import ZodGen.Proofs.PointerNames
import ZodGen.Proofs.ReferenceNames
import ZodGen.Proofs.SplitCompile

/-!
# Modules that declare what they refer to

The components that a path reaches are found by following `$ref` into components only. So the module
of a path declares every binding it refers to (`selfContained_of_split`) unless a reference leads
elsewhere in the document, to a place that has the pointer of a schema component: such a place is
copied, but what it refers to is not (`not_selfContained_stray`).
-/

namespace ZodGen

namespace Module

/-- The names in the reference nodes of a module. -/
def references (m : Module) : List String :=
  m.components.flatMap (fun b => b.2.references)
    ++ m.operations.flatMap fun op => op.request.references ++ op.response.references

/-- Every name that a module refers to is one of its bindings. -/
def SelfContained (m : Module) : Prop := ∀ name ∈ m.references, name ∈ Assoc.keys m.components

theorem selfContained_iff {m : Module} : m.SelfContained ↔
    (∀ b ∈ m.components, b.2.RefersIn (· ∈ Assoc.keys m.components))
      ∧ ∀ op ∈ m.operations, op.request.RefersIn (· ∈ Assoc.keys m.components)
        ∧ op.response.RefersIn (· ∈ Assoc.keys m.components) := by
  simp only [SelfContained, references, List.mem_append, List.mem_flatMap, Validator.refersIn_iff]
  constructor
  · intro h
    exact ⟨fun b hb name hn => h name (.inl ⟨b, hb, hn⟩), fun op hop =>
      ⟨fun name hn => h name (.inr ⟨op, hop, .inl hn⟩),
        fun name hn => h name (.inr ⟨op, hop, .inr hn⟩)⟩⟩
  · rintro ⟨hc, ho⟩ name (⟨b, hb, hn⟩ | ⟨op, hop, hn | hn⟩)
    · exact hc b hb name hn
    · exact (ho op hop).1 name hn
    · exact (ho op hop).2 name hn

end Module

/-! ## References outside path items and components -/

namespace Document

/-- The references that stand neither in a path item nor in a component. -/
def outerRefs (doc : Value) : List String :=
  Value.refsOfMembers ((doc.asObj?.getD []).filter fun m => m.1 != "paths" && m.1 != "components")
    ++ (((doc.get? "paths").bind Value.ref?).toList
      ++ ((doc.obj? "components").getD []).filterMap fun m => m.2.ref?)

theorem ref?_of_mem {ms : Assoc Value} (hd : (Value.obj ms).distinctKeys = true) {r : String}
    (h : ("$ref", .str r) ∈ ms) : (Value.obj ms).ref? = some r := by
  rw [Value.ref?, Value.str?, Value.get?, Assoc.get?_of_mem (Value.distinctKeys_obj.1 hd).1 h]
  rfl

namespace IsPart

variable {doc item part : Value} {path : String} {left : Components}

theorem item_or_outer_of_top (h : IsPart doc path item left part) {r : String}
    (hr : r ∈ Value.refsOfMembers (topMembers doc path item)) :
    r ∈ item.refs ∨ r ∈ outerRefs doc := by
  have houter : r ∈ Value.refsOfMembers ((doc.asObj?.getD []).filter
      fun m => m.1 != "paths" && m.1 != "components") → r ∈ outerRefs doc :=
    List.mem_append_left _
  rcases Value.mem_refsOfMembers_iff.1 hr with hr | ⟨m, hm, hr⟩
  · rcases mem_topMembers hr with hr | hr
    · simp at hr
    · exact .inr (houter (Value.mem_refsOfMembers_iff.2 (.inl hr)))
  · rcases mem_topMembers hm with rfl | hm
    · rw [Value.refs, Value.mem_refsOfMembers_iff] at hr
      rcases hr with hr | ⟨m, hm, hr⟩
      · -- the path is called `$ref` and its item is a text
        obtain ⟨items, hitems, hmem⟩ := h.mem_paths
        cases List.mem_singleton.1 hr
        have hg := Value.get?_of_obj? hitems
        refine .inr (List.mem_append_right _ (List.mem_append_left _ ?_))
        rw [hg, Option.bind_some, ref?_of_mem (distinctKeys_of_get? h.distinct hg) hmem]
        simp
      · cases List.mem_singleton.1 hm
        exact .inl hr
    · exact .inr (houter (Value.mem_refsOfMembers_iff.2 (.inr ⟨m, hm, hr⟩)))

/-- A reference in the components that are kept stands in one of them, unless a section has a text
called `$ref` among its components and so is a reference itself. -/
theorem carries_or_outer_of_components (h : IsPart doc path item left part) {r : String}
    (hr : r ∈ Value.refsOfMembers (keepReached doc left)) :
    Carries doc item left r ∨ r ∈ outerRefs doc := by
  rcases Value.mem_refsOfMembers_iff.1 hr with hr | ⟨m, hm, hr⟩
  · obtain ⟨entries, -, heq⟩ := mem_keepReached hr
    cases heq
  · obtain ⟨entries, hs, heq⟩ := mem_keepReached hm
    rw [heq, Value.refs, Value.mem_refsOfMembers_iff] at hr
    rcases hr with hr | ⟨e, he, hr⟩
    · -- a section has a text called `$ref` among its components
      have hmem := (List.mem_filter.1 hr).1
      have href := ref?_of_mem (component?_of_mem_section h.distinct hs hmem).2 hmem
      exact .inr (List.mem_append_right _ (List.mem_append_right _
        (List.mem_filterMap.2 ⟨_, hs, href⟩)))
    · obtain ⟨hmem, hleft⟩ := List.mem_filter.1 he
      exact .inl (.inr ⟨⟨m.1, e.1⟩, e.2, (component?_of_mem_section h.distinct hs hmem).1,
        by simpa using hleft, hr⟩)

/-- A reference in the document of a path stands in the path item or a reached component, or it is
one that every path gets. -/
theorem carries_or_outer (h : IsPart doc path item left part) {r : String} (hr : r ∈ part.refs) :
    Carries doc item left r ∨ r ∈ outerRefs doc := by
  have hsplit : r ∈ Value.refsOfMembers (topMembers doc path item)
      ∨ r ∈ Value.refsOfMembers (componentMembers doc left) := by
    rw [h.members, Value.refs, Value.mem_refsOfMembers_iff] at hr
    simp only [Value.mem_refsOfMembers_iff]
    rcases hr with hr | ⟨m, hm, hr⟩
    · exact (List.mem_append.1 hr).imp .inl .inl
    · exact (List.mem_append.1 hm).imp (fun hm => .inr ⟨m, hm, hr⟩) fun hm => .inr ⟨m, hm, hr⟩
  rcases hsplit with hr | hr
  · exact (h.item_or_outer_of_top hr).imp .inl id
  · unfold componentMembers at hr
    split_ifs at hr
    · simp [Value.refsOfMembers] at hr
    · simp only [Value.mem_refsOfMembers_iff, List.mem_singleton, exists_eq_left] at hr
      rcases hr with hr | hr
      · simp at hr
      · rw [Value.refs] at hr
        exact h.carries_or_outer_of_components hr

end IsPart

end Document

/-! ## Bindings and references -/

namespace Module

open Document (IsPart component?)

theorem mem_schemas_of_component? {doc v : Value} {name : String}
    (h : component? doc ⟨"schemas", name⟩ = some v) : (name, v) ∈ schemas doc := by
  obtain ⟨section_, hs, hv⟩ := Option.bind_eq_some_iff.1 h
  obtain ⟨sections, hc, hs⟩ := Option.bind_eq_some_iff.1 hs
  cases section_ with
  | obj entries =>
    unfold schemas
    rw [hc, Option.bind_some, Value.obj?, hs]
    exact Schema.mem_of_get? hv
  | _ => simp [Value.get?] at hv

variable {doc item part : Value} {path : String} {left : Document.Components}

/-- Reading a component's name as percent-encoded text changes nothing. -/
def PlainNames (doc : Value) : Prop :=
  ∀ name ∈ Assoc.keys (schemas doc), Text.Percent.decode name.toList = name.toList

instance (doc : Value) : Decidable (PlainNames doc) :=
  inferInstanceAs (Decidable (∀ name ∈ Assoc.keys (schemas doc), _ = _))

/-- The pointer of a schema component that is in the part has the binding of that component. -/
theorem mem_keys_of_schemaName? (h : IsPart doc path item left part) (hplain : PlainNames doc)
    {m : Module} (hm : compile part = .ok m) {r name binding : String} {v : Value}
    (hname : Reference.schemaName? r = some name)
    (hv : component? part ⟨"schemas", name⟩ = some v)
    (hb : BindingName.ofReference r = .ok binding) : binding ∈ Assoc.keys m.components := by
  obtain ⟨-, -, -, hcs, -⟩ := compile_eq_ok.1 hm
  have hmem := mem_schemas_of_component? hv
  obtain ⟨b, hkey, hb', -⟩ := (compileComponents_eq_ok.1 hcs).exists_component hmem
  have hdecode : Text.Percent.decode name.toList = name.toList := by
    rw [h.schemas_eq] at hmem
    exact hplain name (List.mem_map_of_mem (f := Prod.fst) (List.mem_filter.1 hmem).1)
  rw [Reference.ofReference_of_schemaName? hname hb, ← hdecode,
    ← BindingName.ofReference_forComponent hb']
  exact List.mem_map_of_mem hkey

/-- A part is self-contained when its references, taken from a set that leads to no others, have
the pointers of schema components only where the split looks for them. -/
theorem selfContained_of_closed (h : IsPart doc path item left part) (hplain : PlainNames doc)
    {R : String → Prop} (hclosed : Reference.Closed R part)
    (hcarries : ∀ r, IsPart.Carries doc item left r → R r)
    (hschema : ∀ r, R r → (Reference.schemaName? r).isSome → IsPart.Carries doc item left r)
    {m : Module} (hm : compile part = .ok m) : m.SelfContained := by
  obtain ⟨items, css, hitems, hcs, hcss, hops⟩ := compile_eq_ok.1 hm
  have hnames : Schema.Compiler.Names { root := part } R (· ∈ Assoc.keys m.components) := by
    intro r binding hr hsome hb
    obtain ⟨name, hname⟩ := Option.isSome_iff_exists.1 hsome
    obtain ⟨v, hv, hleft⟩ := h.reached_of_carries (hschema r hr hsome)
      (Reference.componentTarget_of_schemaName? hname)
    exact mem_keys_of_schemaName? h hplain hm hname (h.component?_of_reached hv hleft) hb
  refine selfContained_iff.2 ⟨fun b hb => ?_, fun op hop => ?_⟩
  · obtain ⟨s, hs, -, hv⟩ := (compileComponents_eq_ok.1 hcs).exists_schema hb
    refine Schema.Compiler.refersIn_compile hclosed hnames (fun r hr => hcarries r ?_) hv
    rw [h.schemas_eq] at hs
    obtain ⟨hs, hleft⟩ := List.mem_filter.1 hs
    exact .inr ⟨_, _, Document.component?_of_mem_schemas h.distinct hs, by simpa using hleft, hr⟩
  · rw [hops] at hop
    obtain ⟨cs, hcs, hop⟩ := List.mem_flatten.1 hop
    obtain ⟨o, ho, hcompile⟩ := Outcome.exists_of_mem_mapM hcss hcs
    refine Operation.refersIn_compile hclosed hnames ?_ hcompile op hop
    rw [Value.obj?, h.get?_paths] at hitems
    cases hitems
    rw [List.flatMap_singleton] at ho
    exact Document.refsIn_of_mem_pathOperations (fun r hr => hcarries r (.inl hr)) ho

/-- The references to schemas in the document of a path are among those that the split went through,
either as all references lead into components or as the others name no schema. -/
theorem selfContained_part (h : IsPart doc path item left part) (hplain : PlainNames doc)
    (hrefs : Document.PointsIntoComponents doc
      ∨ ∀ r ∈ Document.outerRefs doc, Reference.schemaName? r = none)
    {m : Module} (hm : compile part = .ok m) : m.SelfContained := by
  rcases hrefs with hrefs | houter
  · have halike := h.alike hrefs
    refine selfContained_of_closed h hplain (fun r v hr hv => ?_) (fun _ hr => hr)
      (fun _ hr _ => hr) hm
    exact halike.closed r v hr ((halike.resolve_eq r hr).trans hv)
  · refine selfContained_of_closed h hplain (Reference.closed_refs part)
      (fun r hr => h.mem_refs_of_carries hr) (fun r hr hsome => ?_) hm
    rcases h.carries_or_outer hr with hr | hr
    · exact hr
    · simp [houter r hr] at hsome

theorem generatePaths_eq_ok {options : Options} {outputs : List (String × String)}
    (h : generatePaths doc options = .ok outputs) : ∃ parts, Document.split doc = .ok parts
      ∧ ∀ p ∈ parts, ∃ code, generate p.2 options = .ok code := by
  obtain ⟨parts, hparts, h⟩ := Outcome.bind_eq_ok.1 h
  refine ⟨parts, hparts, fun p hp => ?_⟩
  obtain ⟨o, -, ho⟩ := Outcome.exists_of_mem_of_mapM h hp
  obtain ⟨code, hcode, -⟩ := Outcome.bind_eq_ok.1 ho
  exact ⟨code, hcode⟩

theorem generatePaths_kennel : ∃ outputs,
    generatePaths kennel { prune := false } = .ok outputs := by
  obtain ⟨parts, hs, hkeys⟩ := exists_split_kennel
  have hrender : ∀ cs ∈ kennelModule.components.sublists, ∀ path ∈ ["/pack", "/ping"],
      (render ⟨cs, kennelModule.operations.filter (·.path == path)⟩ false).toBool = true := by
    decide +kernel
  obtain ⟨outputs, houtputs⟩ : ∃ outputs, parts.mapM (fun p => do
      .ok (p.1, ← generate p.2 { prune := false })) = .ok outputs := by
    refine Outcome.exists_mapM fun p hp => ?_
    obtain ⟨item, left, hpart⟩ := Document.isPart_of_split (by decide +kernel) hs hp
    obtain ⟨mp, hmp, hops, hcs⟩ := compile_part hpart (by decide +kernel) compile_kennel
    have hpath : p.1 ∈ ["/pack", "/ping"] := hkeys ▸ List.mem_map_of_mem (f := Prod.fst) hp
    have hok := hrender mp.components (List.mem_sublists.2 hcs) p.1 hpath
    rw [← hops] at hok
    rcases hcode : render mp false with e | code <;> rw [hcode] at hok
    · cases hok
    · refine ⟨(p.1, code), ?_⟩
      simp only [generate, hmp, hcode, Outcome.ok_bind, Bool.false_eq_true, if_false]
  refine ⟨outputs, ?_⟩
  unfold generatePaths
  rw [hs]
  exact houtputs

/-- The modules of the paths are self-contained: each declares every binding it refers to. Either
the references in path items and components lead into components, or no other reference of the
document is the pointer of a schema component. -/
theorem selfContained_of_split {doc : Value} (hd : doc.distinctKeys = true)
    (hplain : PlainNames doc)
    (hrefs : Document.PointsIntoComponents doc
      ∨ ∀ r ∈ Document.outerRefs doc, Reference.schemaName? r = none)
    {options : Options} {outputs : List (String × String)}
    (h : generatePaths doc options = .ok outputs) :
    ∃ parts, Document.split doc = .ok parts
      ∧ ∀ p ∈ parts, ∃ m, compile p.2 = .ok m ∧ m.SelfContained := by
  obtain ⟨parts, hparts, hcode⟩ := generatePaths_eq_ok h
  refine ⟨parts, hparts, fun p hp => ?_⟩
  obtain ⟨code, hcode⟩ := hcode p hp
  obtain ⟨m, hm, -⟩ := Outcome.bind_eq_ok.1 hcode
  obtain ⟨item, left, hpart⟩ := Document.isPart_of_split hd hparts hp
  exact ⟨m, hm, selfContained_part hpart hplain hrefs hm⟩

theorem selfContained_of_split_kennel : ∃ outputs parts,
    generatePaths kennel { prune := false } = .ok outputs ∧ Document.split kennel = .ok parts
      ∧ Assoc.keys parts = ["/pack", "/ping"]
      ∧ ∀ p ∈ parts, ∃ m, compile p.2 = .ok m ∧ m.SelfContained := by
  obtain ⟨outputs, h⟩ := generatePaths_kennel
  obtain ⟨parts, hs, hkeys⟩ := exists_split_kennel
  obtain ⟨parts', hs', hall⟩ := selfContained_of_split (by decide +kernel) (by decide +kernel)
    (.inl (by decide +kernel)) h
  cases hs.symm.trans hs'
  exact ⟨outputs, parts, h, hs, hkeys, hall⟩

/-! ## A reference that leads elsewhere -/

def strayItem : Value := .obj [("get", answering "200"
  (jsonResponse (.obj [("$ref", .str "#/x-schemas/Pack")])))]

/-- A path whose schema stands neither in the path item nor in a component, and refers to a
component from there. -/
def stray : Value := .obj
  [("paths", .obj [("/pack", strayItem)]), ("x-schemas", .obj [("Pack", packSchema)]),
   ("components", .obj [("schemas", .obj [("Dog", Schema.textSchema)])])]

/-- The document of its path: the component is not reached. -/
def strayPart : Value := .obj
  [("paths", .obj [("/pack", strayItem)]), ("x-schemas", .obj [("Pack", packSchema)])]

def strayModule : Module where
  components := []
  operations := [compiledGet "/pack" (Operation.branch (.code 200) Shape.empty
    ⟨.array ⟨.reference "dogSchema", none⟩, none⟩)]

theorem split_stray : Document.split stray = .ok [("/pack", strayPart)] := by
  have hlength : (Document.unreached stray strayItem).map List.length = .ok 1 := by decide +kernel
  have hforPath : Document.forPath stray "/pack" strayItem = .ok strayPart := by
    rcases hleft : Document.unreached stray strayItem with e | left <;> rw [hleft] at hlength
    · cases hlength
    · have hall : left = Document.components stray :=
        (Document.unreached_ended hleft).sublist.eq_of_length (Except.ok.inj hlength)
      subst hall
      exact Document.forPath_eq_ok.2 ⟨_, hleft, rfl⟩
  show [("/pack", strayItem)].mapM (fun p => do .ok (p.1, ← Document.forPath stray p.1 p.2)) = _
  rw [List.mapM_cons, hforPath]
  rfl

theorem compile_strayPart : compile strayPart = .ok strayModule := by
  have hmem : "#/x-schemas/Pack" ∈ Value.refs (.obj [("$ref", .str "#/x-schemas/Pack")])
      ++ Value.refs strayPart := by decide +kernel
  have hresolve : Reference.resolve strayPart "#/x-schemas/Pack" = .ok packSchema :=
    Reference.resolve_eq_ok.2 ⟨["x-schemas", "Pack"], by decide +kernel, rfl⟩
  have hschema : Schema.Compiler.compile { root := strayPart }
      (.obj [("$ref", .str "#/x-schemas/Pack")]) {}
        = .ok ⟨.array ⟨.reference "dogSchema", none⟩, none⟩ := by
    rw [Schema.Compiler.compile, Schema.compileWith]
    show (if (Reference.schemaName? "#/x-schemas/Pack").isSome = true then _ else _) = _
    rw [if_neg (by decide +kernel), Schema.expand, dif_pos hmem]
    simp only [hresolve]
    exact compileWith_packSchema _ rfl _ _
  have hop := compile_answering { root := strayPart } "/pack" (responseBranches_json _ hschema)
  exact compile_eq_ok.2 ⟨_, _, rfl, rfl, Outcome.mapM_eq_ok.2 (.cons hop .nil), rfl⟩

theorem exists_render_strayModule : ∃ code, strayModule.render false = .ok code := by
  have hok : (strayModule.render false).toBool = true := by decide +kernel
  rcases hcode : strayModule.render false with e | code <;> rw [hcode] at hok
  · cases hok
  · exact ⟨code, rfl⟩

/-- The module of a path can refer to a binding that it does not declare. -/
theorem not_selfContained_stray : ∃ outputs parts m,
    generatePaths stray { prune := false } = .ok outputs ∧ Document.split stray = .ok parts
      ∧ ∃ p ∈ parts, compile p.2 = .ok m ∧ ¬ m.SelfContained := by
  obtain ⟨code, hcode⟩ := exists_render_strayModule
  refine ⟨[("/pack", code)], _, strayModule, ?_, split_stray, _, List.mem_singleton_self _,
    compile_strayPart, fun h => ?_⟩
  · unfold generatePaths generate
    simp only [split_stray, Outcome.ok_bind, List.mapM_cons, List.mapM_nil, compile_strayPart,
      hcode, Bool.false_eq_true, if_false]
    rfl
  · have hmem : "dogSchema" ∈ strayModule.references := by decide +kernel
    exact absurd (h _ hmem) (by decide)

end Module

end ZodGen
