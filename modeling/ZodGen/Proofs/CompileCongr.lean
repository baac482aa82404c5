import ZodGen.Operation.Compile
import ZodGen.Proofs.Members
import ZodGen.Proofs.Outcome
import ZodGen.Proofs.SchemaRule

/-!
# What compiling depends on

A compiler reads its document only through the references it follows. Two documents that take a set
of references alike, a set that holds every reference in what its members lead to, give the same
validators for schemas and operations whose references are in the set.

The references that may still be replaced are counted from all references of the document, so those
lists differ between the two documents; they only have to agree on the set.
-/

namespace ZodGen

/-- Two documents take the references in `R` alike: each of them stands in both, leads to the same,
and leads to values whose references are in `R` again. -/
structure Reference.Alike (R : String → Prop) (d e : Value) : Prop where
  mem_left : ∀ r, R r → r ∈ d.refs
  mem_right : ∀ r, R r → r ∈ e.refs
  resolve_eq : ∀ r, R r → resolve d r = resolve e r
  closed : Closed R d

variable {R : String → Prop}

theorem Reference.others_congr {pending pending' : List String} (r : String)
    (hp : ∀ s, R s → (s ∈ pending ↔ s ∈ pending')) :
    ∀ s, R s → (s ∈ others r pending ↔ s ∈ others r pending') := by
  intro s hs
  rw [mem_others, mem_others, hp s hs]

namespace Schema

/-! ## Schemas -/

section Schema

variable {c d : Compiler} {pending pending' : List String} {o : Options}

theorem compileItems_congr {schemas : List Value}
    (h : ∀ s ∈ schemas, compileWith c pending o s = compileWith d pending' o s) :
    compileItems c pending o schemas = compileItems d pending' o schemas := by
  rw [compileItems_eq_mapM, compileItems_eq_mapM]
  exact Outcome.mapM_congr h

theorem compileMembers_congr {ms : List (String × Value)}
    (h : ∀ m ∈ ms, compileWith c pending o m.2 = compileWith d pending' o m.2) :
    compileMembers c pending o ms = compileMembers d pending' o ms := by
  rw [compileMembers_eq_mapM, compileMembers_eq_mapM]
  refine Outcome.mapM_congr fun m hm => ?_
  rw [h m hm]

theorem compileParts_congr {parts : List Value}
    (h : ∀ s ∈ parts, compileWith c pending o s = compileWith d pending' o s)
    (he : ∀ s ∈ parts, ∀ r, s.ref? = some r →
      expand c pending o true r = expand d pending' o true r) :
    compileParts c pending o parts = compileParts d pending' o parts := by
  rw [compileParts_eq_mapM, compileParts_eq_mapM]
  refine Outcome.mapM_congr fun part hp => ?_
  unfold partWith
  rcases hr : part.ref? with _ | r
  · exact h part hp
  · exact he part hp r hr

theorem variants_congr (disc : Discriminator) (property : String) {alts : List Value}
    (he : ∀ s ∈ alts, ∀ r, s.ref? = some r →
      expand c pending o true r = expand d pending' o true r) :
    variants c pending o disc property alts = variants d pending' o disc property alts := by
  rw [variants_eq_mapM, variants_eq_mapM]
  refine Outcome.mapM_congr fun m hm => ?_
  obtain ⟨alt, halt, hr⟩ := mem_of_mem_taggedReferences hm
  rw [he alt halt m.1 hr]

/-- A rule does the same in two compilers that compile the same for the schemas and references of
the rule. -/
theorem lowerBy_congr (schema : Value) (rule : Rule)
    (h : ∀ s ∈ rule.schemas, compileWith c pending o s = compileWith d pending' o s)
    (he : ∀ s ∈ rule.schemas, ∀ r, s.ref? = some r →
      expand c pending o true r = expand d pending' o true r) :
    lowerBy c pending o schema rule = lowerBy d pending' o schema rule := by
  rcases rule with ⟨disc, alts⟩ | ⟨parts, own⟩ | alts | ps | item | _ <;>
    simp only [Rule.schemas] at h he <;> simp only [lowerBy]
  case tagged =>
    simp only [variants_congr disc _ he]
  case allOf =>
    rw [compileParts_congr (fun s hs => h s (List.mem_append_left _ hs))
      fun s hs => he s (List.mem_append_left _ hs)]
    rcases own with _ | ps
    · rfl
    · have hm : ∀ m ∈ ps, compileWith c pending o m.2 = compileWith d pending' o m.2 :=
        fun m hm => h m.2 (List.mem_append_right _ (List.mem_map_of_mem hm))
      simp only [compileMembers_congr hm]
  case alternatives =>
    rw [compileItems_congr h]
  case properties =>
    rw [compileMembers_congr fun m hm => h m.2 (List.mem_map_of_mem hm)]
  case array =>
    rcases item with _ | item
    · rfl
    · simp only [h item (by simp)]

/-- Between two replacements the schema gets smaller, so it is enough that the replacements of its
references agree. -/
theorem compileWith_congr (hn : c.bindingName = d.bindingName)
    (he : ∀ r, R r → ∀ f, expand c pending o f r = expand d pending' o f r) (schema : Value)
    (hs : ∀ r ∈ schema.refs, R r) :
    compileWith c pending o schema = compileWith d pending' o schema := by
  have hin : ∀ s ∈ (Rule.of schema).schemas, ∀ r ∈ s.refs, R r :=
    fun s hm r hr => hs r ((Rule.inside_of_mem_schemas hm).2 hr)
  have hlower : lower c pending o schema = lower d pending' o schema := by
    rw [lower_eq, lower_eq]
    refine lowerBy_congr schema _ (fun s hm => ?_) fun s hm r hr => ?_
    · exact compileWith_congr hn he s (hin s hm)
    · exact he r (hin s hm r (Value.mem_refs_of_ref? hr)) true
  rw [compileWith, compileWith, hlower, hn]
  rcases hr : schema.ref? with _ | r
  · rfl
  · simp only [he r (hs r (Value.mem_refs_of_ref? hr)) false]
termination_by sizeOf schema
decreasing_by exact (Rule.inside_of_mem_schemas hm).1

end Schema

/-- A replacement leaves fewer references to replace, and leads to references in the set again. -/
theorem expand_congr {c d : Compiler} (h : Reference.Alike R c.root d.root)
    (hn : c.bindingName = d.bindingName) (o : Options) (pending pending' : List String)
    (hp : ∀ r, R r → (r ∈ pending ↔ r ∈ pending')) (r : String) (hr : R r) (f : Bool) :
    expand c pending o f r = expand d pending' o f r := by
  rw [expand, expand, ← h.resolve_eq r hr]
  by_cases hm : r ∈ pending
  · have ih : ∀ s, R s → ∀ f, expand c (Reference.others r pending) o f s
        = expand d (Reference.others r pending') o f s :=
      fun s hs f => expand_congr h hn o _ _ (Reference.others_congr r hp) s hs f
    rw [dif_pos hm, dif_pos ((hp r hr).1 hm)]
    rcases hres : Reference.resolve c.root r with e | target
    · rfl
    · have ht := h.closed r target hr hres
      simp only []
      split
      · rename_i next hnext
        exact ih next (ht next (Value.mem_refs_of_ref? hnext)) true
      · exact compileWith_congr hn ih target ht
  · rw [dif_neg hm, dif_neg fun hm' => hm ((hp r hr).2 hm')]
termination_by pending.length
decreasing_by exact Reference.length_others_lt hm

/-- A schema compiles the same in two documents that are alike for the references in it. -/
theorem Compiler.compile_congr {c d : Compiler} (h : Reference.Alike R c.root d.root)
    (hn : c.bindingName = d.bindingName) (schema : Value) (o : Options)
    (hs : ∀ r ∈ schema.refs, R r) : c.compile schema o = d.compile schema o := by
  refine compileWith_congr hn (expand_congr h hn o _ _ fun r hr => ?_) schema hs
  simp [h.mem_left r hr, h.mem_right r hr]

end Schema

/-! ## Chains of references -/

namespace Reference

variable {d e : Value}

theorem follow_congr (h : Alike R d e) (pending pending' : List String)
    (hp : ∀ r, R r → (r ∈ pending ↔ r ∈ pending')) (v : Value) (hv : ∀ r ∈ v.refs, R r) :
    follow d pending v = follow e pending' v := by
  rw [follow, follow]
  rcases hr : v.ref? with _ | r
  · rfl
  · have hR := hv r (Value.mem_refs_of_ref? hr)
    simp only [← h.resolve_eq r hR]
    by_cases hm : r ∈ pending
    · rw [dif_pos hm, dif_pos ((hp r hR).1 hm)]
      rcases hres : resolve d r with _ | next
      · rfl
      · exact follow_congr h _ _ (others_congr r hp) next (h.closed r next hR hres)
    · rw [dif_neg hm, dif_neg fun hm' => hm ((hp r hR).2 hm')]
termination_by pending.length
decreasing_by exact length_others_lt hm

theorem resolveObject_congr (h : Alike R d e) {v : Value} (hv : ∀ r ∈ v.refs, R r) :
    resolveObject d v = resolveObject e v := by
  refine follow_congr h _ _ (fun r hr => ?_) v hv
  simp [h.mem_left r hr, h.mem_right r hr]

end Reference

/-! ## Operations -/

namespace Operation

variable {c d : Schema.Compiler}

theorem mediaValidator_congr (h : Reference.Alike R c.root d.root)
    (hn : c.bindingName = d.bindingName) {media : Value} (hm : ∀ r ∈ media.refs, R r) :
    mediaValidator c media = mediaValidator d media := by
  unfold mediaValidator
  rcases hs : media.get? "schema" with _ | schema
  · rfl
  · exact Schema.Compiler.compile_congr h hn schema {} fun r hr =>
      hm r (Value.refs_subset_of_get? hs hr)

theorem addParameter_congr (h : Reference.Alike R c.root d.root)
    (hn : c.bindingName = d.bindingName) (label : String) (ps : Parameters) {p : Value}
    (hp : ∀ r ∈ p.refs, R r) : addParameter c label ps p = addParameter d label ps p := by
  unfold addParameter
  simp only []
  split
  · rfl
  · rfl
  · rename_i l _ _
    rcases hs : p.get? "schema" with _ | schema
    · rfl
    · simp only []
      rw [Schema.Compiler.compile_congr h hn schema l.options fun r hr =>
        hp r (Value.refs_subset_of_get? hs hr)]

/-- The references in an operation and in the parameters of its path are in the set. -/
def RefsIn (R : String → Prop) (op : Document.Operation) : Prop :=
  (∀ p ∈ op.pathParameters, ∀ r ∈ p.refs, R r) ∧ ∀ r ∈ op.body.refs, R r

theorem refs_of_mem_allParameters {op : Document.Operation} (hop : RefsIn R op) {p : Value}
    (hp : p ∈ allParameters op) : ∀ r ∈ p.refs, R r := by
  rcases List.mem_append.1 hp with hp | hp
  · exact hop.1 p hp
  · rcases ha : op.body.arr? "parameters" with _ | ps <;> rw [ha] at hp
    · simp at hp
    · exact fun r hr => hop.2 r ((Schema.inside_of_arr? ha hp).2 hr)

theorem mergedParameters_congr {e f : Value} (h : Reference.Alike R e f) {op : Document.Operation}
    (hop : RefsIn R op) : mergedParameters e op = mergedParameters f op := by
  unfold mergedParameters
  rw [Outcome.mapM_congr fun p hp =>
    Reference.resolveObject_congr h (refs_of_mem_allParameters hop hp)]

/-- Parameters that are references are resolved first, which does not lead out of a closed set. -/
theorem refs_of_mem_mergedParameters {root : Value} (h : Reference.Closed R root)
    {op : Document.Operation} (hop : RefsIn R op) {ps : List Value}
    (hps : mergedParameters root op = .ok ps) {p : Value} (hp : p ∈ ps) : ∀ r ∈ p.refs, R r := by
  obtain ⟨resolved, hres, hok⟩ := Outcome.bind_eq_ok.1 hps
  cases hok
  have hmem := Assoc.mem_values_ofList hp
  simp only [Assoc.values, List.map_map, Function.comp_def, List.map_id'] at hmem
  obtain ⟨raw, hraw, hraw'⟩ := Outcome.exists_of_mem_mapM hres hmem
  exact Reference.refs_of_resolveObject h (refs_of_mem_allParameters hop hraw) hraw'

theorem obj?_of_content? {v : Value} {content : Assoc Value} (h : content? v = some content) :
    v.obj? "content" = some content := (Option.filter_eq_some_iff.1 h).1

theorem bodies_congr (h : Reference.Alike R c.root d.root) (hn : c.bindingName = d.bindingName)
    {op : Value} (hop : ∀ r ∈ op.refs, R r) : bodies c op = bodies d op := by
  unfold bodies
  rcases hb : op.get? "requestBody" with _ | raw
  · rfl
  · have hraw : ∀ r ∈ raw.refs, R r := fun r hr => hop r (Value.refs_subset_of_get? hb hr)
    simp only []
    rw [← Reference.resolveObject_congr h hraw]
    rcases hres : Reference.resolveObject c.root raw with e | body
    · rfl
    · simp only [Outcome.ok_bind]
      rcases hc : content? body with _ | content
      · rfl
      · refine Outcome.mapM_congr fun m hm => ?_
        rw [mediaValidator_congr h hn fun r hr =>
          Reference.refs_of_resolveObject h.closed hraw hres r
            ((Schema.inside_of_obj? (obj?_of_content? hc) (List.mem_map_of_mem hm)).2 hr)]

theorem mem_of_selectMedia {content : Assoc Value} {media : Value}
    (h : selectMedia content = some media) : media ∈ content.map Prod.snd := by
  have hget : ∀ {key : String}, Assoc.get? key content = some media →
      media ∈ content.map Prod.snd :=
    fun hk => List.mem_map_of_mem (f := Prod.snd) (Schema.mem_of_get? hk)
  simp only [selectMedia, Option.or_eq_some_iff, Option.map_eq_some_iff] at h
  rcases h with h | ⟨-, ⟨m, hm, rfl⟩ | ⟨-, h | ⟨-, h | ⟨-, m, hm, rfl⟩⟩⟩⟩
  · exact hget h
  · exact List.mem_map_of_mem (List.mem_of_find?_eq_some hm)
  · exact hget h
  · exact hget h
  · exact List.mem_map_of_mem (List.mem_of_head? hm)

theorem mem_of_mem_responseMedia {key : String} {requestType : Option String} {tagged : Bool}
    {content : Option (Assoc Value)} {t : Option String} {media : Value}
    (h : (t, some media) ∈ responseMedia key requestType tagged content) :
    ∃ ms, content = some ms ∧ media ∈ ms.map Prod.snd := by
  rcases content with _ | ms
  · simp [responseMedia] at h
  · refine ⟨ms, rfl, ?_⟩
    simp only [responseMedia] at h
    split_ifs at h
    · simp only [List.mem_singleton, Prod.mk.injEq] at h
      rcases Option.or_eq_some_iff.1 h.2.symm with hk | ⟨-, hk⟩
      · obtain ⟨t', -, hk⟩ := Option.bind_eq_some_iff.1 hk
        exact List.mem_map_of_mem (f := Prod.snd) (Schema.mem_of_get? hk)
      · exact mem_of_selectMedia hk
    · simp only [List.mem_map, Prod.mk.injEq, Option.some.injEq] at h
      obtain ⟨m, hm, -, rfl⟩ := h
      exact List.mem_map_of_mem hm
    · simp only [List.mem_singleton, Prod.mk.injEq] at h
      exact mem_of_selectMedia h.2.symm

theorem responseHeaders_congr (h : Reference.Alike R c.root d.root)
    (hn : c.bindingName = d.bindingName) {response : Value} (hr : ∀ r ∈ response.refs, R r) :
    responseHeaders c response = responseHeaders d response := by
  unfold responseHeaders
  refine Outcome.foldlM_congr fun shape m hm => ?_
  have hraw : ∀ r ∈ m.2.refs, R r := by
    rcases ho : response.obj? "headers" with _ | ms <;> rw [ho] at hm
    · simp at hm
    · exact fun r hmr => hr r ((Schema.inside_of_obj? ho (List.mem_map_of_mem hm)).2 hmr)
  simp only []
  rw [← Reference.resolveObject_congr h hraw]
  rcases hres : Reference.resolveObject c.root m.2 with e | header
  · rfl
  · simp only [Outcome.ok_bind]
    rw [Schema.Compiler.compile_congr h hn _ _ fun r hmr => ?_]
    rcases hs : header.get? "schema" with _ | schema <;> rw [hs] at hmr
    · simp [Value.refs, Value.refsOfMembers] at hmr
    · exact Reference.refs_of_resolveObject h.closed hraw hres r (Value.refs_subset_of_get? hs hmr)

theorem responseBranches_congr (h : Reference.Alike R c.root d.root)
    (hn : c.bindingName = d.bindingName) (requestType : Option String) (tagged : Bool)
    (key : String) {raw : Value} (hraw : ∀ r ∈ raw.refs, R r) :
    responseBranches c requestType tagged key raw
      = responseBranches d requestType tagged key raw := by
  unfold responseBranches
  refine bind_congr fun status => ?_
  rw [← Reference.resolveObject_congr h hraw]
  rcases hres : Reference.resolveObject c.root raw with e | response
  · rfl
  · have hresp := Reference.refs_of_resolveObject h.closed hraw hres
    simp only [Outcome.ok_bind]
    rw [responseHeaders_congr h hn hresp]
    refine bind_congr fun headers => ?_
    rw [Outcome.mapM_congr fun m hm => ?_]
    obtain ⟨t, _ | media⟩ := m
    · rfl
    · obtain ⟨ms, hc, hms⟩ := mem_of_mem_responseMedia hm
      simp only []
      rw [mediaValidator_congr h hn fun r hr =>
        hresp r ((Schema.inside_of_obj? (obj?_of_content? hc) hms).2 hr)]

theorem responses_congr (h : Reference.Alike R c.root d.root) (hn : c.bindingName = d.bindingName)
    (requestType : Option String) (tagged : Bool) {ms : Assoc Value}
    (hms : ∀ m ∈ ms, ∀ r ∈ m.2.refs, R r) :
    responses c requestType tagged ms = responses d requestType tagged ms := by
  unfold responses
  rw [Outcome.mapM_congr fun m hm =>
    responseBranches_congr h hn requestType tagged m.1 (hms m hm)]

/-- Operations whose references two documents take alike have the same validators in both. -/
theorem compile_congr (h : Reference.Alike R c.root d.root) (hn : c.bindingName = d.bindingName)
    {op : Document.Operation} (hop : RefsIn R op) : compile c op = compile d op := by
  unfold compile
  rw [← mergedParameters_congr h hop]
  rcases hps : mergedParameters c.root op with e | ps
  · simp only [Outcome.error_bind]
  · simp only [Outcome.ok_bind]
    rw [Outcome.foldlM_congr fun acc p hp => addParameter_congr h hn (label op) acc
      (refs_of_mem_mergedParameters h.closed hop hps hp), bodies_congr h hn hop.2]
    refine bind_congr fun parameters => bind_congr fun variants => ?_
    split
    · rfl
    · rename_i ms hr
      have ho := (Option.filter_eq_some_iff.1 hr).1
      refine Outcome.mapM_congr fun variant _ => ?_
      rw [responses_congr h hn _ _ fun m hm r hmr =>
        hop.2 r ((Schema.inside_of_obj? ho (List.mem_map_of_mem hm)).2 hmr)]

end Operation

end ZodGen
