import ZodGen.Proofs.Nodes
import ZodGen.Proofs.PathDocument

/-!
# Unions with a discriminator

Every option of a discriminated union carries its tag: it is an object that requires the
discriminator's property and allows only the tag there. The options of a schema with `oneOf` and
`discriminator` are those of its alternatives that are references with an entry in the mapping, and
the tag of each is the first that the mapping has for the reference (`compile_tagged`).

No two references share a tag, as a tag has one entry in the mapping (`tagFor?_inj`).
-/

namespace ZodGen.Schema

namespace Discriminator

/-- The alternatives that are references with an entry in the mapping. -/
def mapped (d : Discriminator) (alts : List Value) : List String :=
  (alts.filterMap Value.ref?).filter fun r => (d.tagFor? r).isSome

theorem map_fst_taggedReferences (d : Discriminator) (alts : List Value) :
    (taggedReferences d alts).map Prod.fst = d.mapped alts := by
  induction alts with
  | nil => rfl
  | cons alt alts ih =>
    rw [mapped] at ih ⊢
    rw [taggedReferences] at ih ⊢
    rcases hr : alt.ref? with _ | r
    · simpa [List.filterMap_cons, hr] using ih
    · rcases ht : d.tagFor? r with _ | tag <;>
        simpa [List.filterMap_cons, hr, ht] using ih

theorem tagFor?_of_mem_taggedReferences {d : Discriminator} {alts : List Value}
    {m : String × String} (h : m ∈ taggedReferences d alts) : d.tagFor? m.1 = some m.2 := by
  obtain ⟨alt, -, hm⟩ := List.mem_filterMap.1 h
  obtain ⟨r, -, hm⟩ := Option.bind_eq_some_iff.1 hm
  obtain ⟨tag, htag, hm⟩ := Option.bind_eq_some_iff.1 hm
  cases hm
  exact htag

theorem map_tagFor?_mapped (d : Discriminator) (alts : List Value) :
    (d.mapped alts).map d.tagFor? = ((taggedReferences d alts).map Prod.snd).map some := by
  rw [← map_fst_taggedReferences, List.map_map, List.map_map]
  exact List.map_congr_left fun m hm => tagFor?_of_mem_taggedReferences hm

/-- A tag is found for a reference at an entry of the mapping. -/
theorem mem_of_tagFor? {d : Discriminator} {r tag : String} (h : d.tagFor? r = some tag) :
    ∃ mapping, (Value.obj d.members).obj? "mapping" = some mapping
      ∧ (tag, .str r) ∈ mapping := by
  obtain ⟨mapping, hmapping, h⟩ := Option.bind_eq_some_iff.1 h
  obtain ⟨⟨key, target⟩, hfind, h⟩ := Option.bind_eq_some_iff.1 h
  cases h
  refine ⟨mapping, hmapping, ?_⟩
  have htarget := List.find?_some hfind
  cases target with
  | str s =>
    obtain rfl : s = r := by simpa [Value.asStr?] using htarget
    exact List.mem_of_find?_eq_some hfind
  | _ => simp [Value.asStr?] at htarget

/-- Without repeated keys a tag is mapped to one reference, so no two references have one tag. -/
theorem tagFor?_inj {d : Discriminator} (hd : (Value.obj d.members).distinctKeys = true)
    {r s tag : String} (hr : d.tagFor? r = some tag) (hs : d.tagFor? s = some tag) : r = s := by
  obtain ⟨mapping, hmapping, hr⟩ := mem_of_tagFor? hr
  obtain ⟨mapping', hmapping', hs⟩ := mem_of_tagFor? hs
  cases hmapping.symm.trans hmapping'
  have hn := Document.nodup_keys_of_obj? hd hmapping
  have h := (Assoc.get?_of_mem hn hr).symm.trans (Assoc.get?_of_mem hn hs)
  simpa using h

/-- References that are all different have tags that are all different. -/
theorem nodup_tags {d : Discriminator} (hd : (Value.obj d.members).distinctKeys = true)
    {alts : List Value} (h : (d.mapped alts).Nodup) :
    ((taggedReferences d alts).map Prod.snd).Nodup := by
  refine List.Nodup.of_map some ?_
  rw [← map_tagFor?_mapped]
  refine h.map_on fun r hr s _ heq => ?_
  obtain ⟨tag, htag⟩ := Option.isSome_iff_exists.1 (List.mem_filter.1 hr).2
  exact tagFor?_inj hd htag (heq ▸ htag)

end Discriminator

section Compile

variable {c : Compiler} {pending : List String} {o : Options} {schema : Value} {v : Validator}
  {alts : List Value} {d : Discriminator}

theorem distinctKeys_of_discriminator? (h : schema.distinctKeys = true)
    (hd : discriminator? schema = some d) : (Value.obj d.members).distinctKeys = true := by
  obtain ⟨members, hmembers, rfl⟩ := Option.map_eq_some_iff.1 hd
  exact Document.distinctKeys_of_get? h (Value.get?_of_obj? hmembers)

theorem Rule.of_tagged (hone : schema.arr? "oneOf" = some alts)
    (hd : discriminator? schema = some d) : Rule.of schema = .tagged d alts := by
  simp only [Rule.of, hone, hd]

/-- A schema with `oneOf` and a discriminator is compiled to its variants. -/
theorem exists_variants_of_compileWith (hr : schema.ref? = none)
    (hone : schema.arr? "oneOf" = some alts) (hd : discriminator? schema = some d)
    (h : compileWith c pending o schema = .ok v) :
    ∃ property options, d.propertyName? = some property
      ∧ variants c pending o d property alts = .ok options
      ∧ v = finish schema (.discriminatedUnion property options) := by
  rw [compileWith_eq_lowerBy _ _ _ hr, Rule.of_tagged hone hd, lowerBy] at h
  obtain ⟨form, hform, hv⟩ := Outcome.bind_eq_ok.1 h
  rcases hproperty : d.propertyName? with _ | property <;> rw [hproperty] at hform
  · simp [fail] at hform
  · obtain ⟨options, hoptions, hform⟩ := Outcome.bind_eq_ok.1 hform
    cases hform
    exact ⟨property, options, rfl, hoptions, (Except.ok.inj hv).symm⟩

/-- Wherever a discriminated union stands in a validator, each of its options is an object that
requires the discriminator's property and has a text as its only value. For a schema that is itself
such a union, the options are those of its references with an entry in the mapping, in order, and
each has the tag of its reference. If these references are all different, so are the tags. -/
theorem compile_tagged (h : c.compile schema o = .ok v) :
    (∀ property options, .discriminatedUnion property options ∈ v.nodes →
      ∀ option ∈ options, ∃ tag, option.Tagged property tag)
    ∧ ∀ alts d, schema.ref? = none → schema.arr? "oneOf" = some alts →
      discriminator? schema = some d →
      ∃ property tags options, d.propertyName? = some property
        ∧ v = finish schema (.discriminatedUnion property options)
        ∧ (d.mapped alts).map d.tagFor? = tags.map some
        ∧ List.Forall₂ (fun tag option => option.Tagged property tag) tags options
        ∧ (schema.distinctKeys = true → (d.mapped alts).Nodup → tags.Nodup) := by
  refine ⟨fun property options hnode => ?_, fun alts d hr hone hd => ?_⟩
  · have hbuilt : v.Built fun _ => True := Compiler.built_compile (R := fun _ => True)
      (fun _ _ _ _ _ _ => trivial) (fun _ _ _ _ _ => trivial) (fun _ _ => trivial) h
    cases Validator.built_iff.1 hbuilt _ hnode with
    | discriminatedUnion htagged => exact htagged
  · obtain ⟨property, options, hproperty, hoptions, hv⟩ :=
      exists_variants_of_compileWith hr hone hd h
    refine ⟨property, (taggedReferences d alts).map Prod.snd, options, hproperty, hv,
      d.map_tagFor?_mapped alts, ?_, fun hdistinct hnodup => ?_⟩
    · exact List.forall₂_map_left_iff.2 (variants_tagged hoptions)
    · exact Discriminator.nodup_tags (distinctKeys_of_discriminator? hdistinct hd) hnodup

end Compile

/-- A reference to a schema component. -/
def speciesReference (name : String) : Value :=
  .obj [("$ref", .str ("#/components/schemas/" ++ name))]

/-- A cat, with a property that tells its kind. -/
def cat : Value := .obj [("properties", .obj [("kind", .obj [("type", .str "string")])])]

/-- Schemas of a cat and of a tom, which is another name for a cat. -/
def cattery : Value :=
  .obj [("components", .obj [("schemas", .obj [("Cat", cat), ("Tom", speciesReference "Cat")])])]

/-- Told apart by their kind; the alternative in between has no name, and so no tag. -/
def resident : Value :=
  .obj [("oneOf", .arr [speciesReference "Tom", .obj [("type", .str "object")],
      speciesReference "Cat"]),
    ("discriminator", .obj [("propertyName", .str "kind"),
      ("mapping", .obj [("puss", .str "#/components/schemas/Cat"),
        ("tom", .str "#/components/schemas/Tom"), ("cat", .str "#/components/schemas/Cat")])])]

/-- A cat of one kind. -/
def catOfKind (kind : String) : Validator :=
  .object ⟨[("kind", .literalText kind)], ["kind"]⟩

theorem compileWith_cat (c : Compiler) (pending : List String) (o : Options) :
    compileWith c pending o cat = .ok (.object ⟨[("kind", .plain .string)], []⟩) := by
  rw [compileWith_eq_lowerBy _ _ _ rfl]
  show ((compileMembers _ _ _ [("kind", textSchema)] >>= _) >>= _) = _
  rw [compileMembers, compileWith_textSchema, compileMembers]
  rfl

theorem resolve_cat : Reference.resolve cattery "#/components/schemas/Cat" = .ok cat :=
  Reference.resolve_eq_ok.2 ⟨["components", "schemas", "Cat"], by decide +kernel, rfl⟩

theorem resolve_tom :
    Reference.resolve cattery "#/components/schemas/Tom" = .ok (speciesReference "Cat") :=
  Reference.resolve_eq_ok.2 ⟨["components", "schemas", "Tom"], by decide +kernel, rfl⟩

theorem compile_resident : Compiler.compile { root := cattery } resident {}
    = .ok (.plain (.discriminatedUnion "kind" [catOfKind "tom", catOfKind "puss"])) := by
  have hcat : ∀ pending, "#/components/schemas/Cat" ∈ pending →
      expand { root := cattery } pending {} true "#/components/schemas/Cat"
        = .ok (.object ⟨[("kind", .plain .string)], []⟩) := by
    intro pending hmem
    rw [expand, dif_pos hmem]
    simp only [resolve_cat]
    exact compileWith_cat _ _ _
  have htom : ∀ pending, "#/components/schemas/Cat" ∈ pending →
      "#/components/schemas/Tom" ∈ pending →
      expand { root := cattery } pending {} true "#/components/schemas/Tom"
        = .ok (.object ⟨[("kind", .plain .string)], []⟩) := by
    intro pending hmem htom
    rw [expand, dif_pos htom]
    simp only [resolve_tom]
    exact hcat _ (Reference.mem_others.2 ⟨hmem, by decide⟩)
  rw [Compiler.compile, compileWith_eq_lowerBy _ _ _ rfl]
  show ((variants _ _ _ _ "kind" _ >>= _) >>= _) = _
  rw [variants_eq_mapM]
  show ((List.mapM _ [("#/components/schemas/Tom", "tom"), ("#/components/schemas/Cat", "puss")]
    >>= _) >>= _) = _
  rw [List.mapM_cons, List.mapM_cons, htom _ (by decide) (by decide), hcat _ (by decide)]
  rfl

theorem compile_tagged_resident :
    (∀ option ∈ [catOfKind "tom", catOfKind "puss"], ∃ tag, option.Tagged "kind" tag)
    ∧ ∃ alts d tags options, resident.arr? "oneOf" = some alts
      ∧ discriminator? resident = some d ∧ (d.mapped alts).map d.tagFor? = tags.map some
      ∧ tags.Nodup ∧ List.Forall₂ (fun tag option => option.Tagged "kind" tag) tags options
      ∧ Compiler.compile { root := cattery } resident {}
        = .ok (finish resident (.discriminatedUnion "kind" options)) := by
  obtain ⟨hnodes, hunion⟩ := compile_tagged compile_resident
  obtain ⟨property, tags, options, hproperty, hv, htags, hoptions, hnodup⟩ :=
    hunion _ _ rfl rfl rfl
  cases hproperty
  refine ⟨hnodes "kind" _ ?_, _, _, tags, options, rfl, rfl, htags, ?_, hoptions, ?_⟩
  · exact List.mem_cons_self
  · exact hnodup (by decide +kernel) (by decide +kernel)
  · rw [← hv]
    exact compile_resident

end ZodGen.Schema
