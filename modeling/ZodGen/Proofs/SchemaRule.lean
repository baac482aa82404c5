import ZodGen.Proofs.References
import ZodGen.Schema.Rule

/-!
# Forms by rule

`lower_eq` gives the form of a schema without `$ref` by the rule it falls under, so a proof about
`lower` has one case for each rule. What a rule compiles stands inside the schema, and a list of
schemas compiles one by one (`compileItems_eq_mapM` and the like).
-/

namespace ZodGen.Schema

/-- The form of a schema by its rule. -/
def lowerBy (c : Compiler) (pending : List String) (o : Options) (schema : Value) :
    Rule → Outcome (Form Validator)
  | .tagged d alts =>
    match d.propertyName? with
    | none => fail .invalidDiscriminatedUnion "discriminator has no propertyName"
    | some property => do
      .ok (.discriminatedUnion property (← variants c pending o d property alts))
  | .allOf parts own => do
    let shape := absorbParts (Shape.empty.require (required schema))
      (← compileParts c pending o parts)
    match own with
    | none => .ok (.object shape)
    | some ps =>
      let own ← compileMembers c pending o ps
      .ok (.object (shape.absorb ((Shape.mk own []).require (required schema))))
  | .alternatives alts => do .ok (Schema.alternatives (← compileItems c pending o alts))
  | .properties ps => do
    .ok (.object ((Shape.mk (← compileMembers c pending o ps) []).require (required schema)))
  | .array (some item) => do .ok (.array (← compileWith c pending o item))
  | .array none => fail .missingArrayItems ((schema.str? "description").getD "array schema")
  | .plain => plainForm o schema

theorem Rule.of_untagged {schema : Value}
    (h : ∀ alts d, schema.arr? "oneOf" = some alts → discriminator? schema = some d → False) :
    Rule.of schema =
      match schema.arr? "allOf" with
      | some parts => .allOf parts (schema.obj? "properties")
      | none =>
        match (schema.arr? "oneOf").or (schema.arr? "anyOf") with
        | some alts => .alternatives alts
        | none =>
          match schema.obj? "properties" with
          | some ps => .properties ps
          | none =>
            if schema.str? "type" = some "array" then .array (schema.get? "items")
            else .plain := by
  unfold Rule.of
  split
  · rename_i h1 h2
    exact (h _ _ h1 h2).elim
  · rfl

/-- The keywords are tried in order and the first that is there gives the form, as the rule says.
One case for each keyword. -/
theorem lower_eq (c : Compiler) (pending : List String) (o : Options) (schema : Value) :
    lower c pending o schema = lowerBy c pending o schema (Rule.of schema) := by
  -- Both sides look up the same members in the same order, so each split settles one look-up.
  unfold lower
  split
  · rename_i alts d h1 h2
    simp only [Rule.of, h1, h2]
    rfl
  · rename_i hnot
    rw [Rule.of_untagged hnot]
    split
    · rename_i hall hprops
      simp only [hall, hprops, lowerBy]
    · rename_i hall hprops
      simp only [hall, hprops, lowerBy]
    · rename_i hall
      simp only [hall]
      split
      · rename_i hone _
        simp only [hone, Option.some_or, lowerBy]
      · rename_i hone hany _
        simp only [hone, hany, Option.none_or, lowerBy]
      · rename_i hone hany _
        simp only [hone, hany, Option.none_or]
        split
        · rename_i hprops _
          simp only [hprops, lowerBy]
        · rename_i hprops _
          simp only [hprops]
          by_cases ht : schema.str? "type" = some "array"
          · rw [if_pos ht, ht]
            simp only []
            split
            · rename_i hitems
              simp only [hitems, lowerBy]
            · rename_i hitems
              simp only [hitems, lowerBy]
          · rw [if_neg ht]
            show _ = plainForm o schema
            split
            · rename_i htype
              rewrite [plainForm, htype]
              rfl
            all_goals simp_all [plainForm]

/-- A schema that is no reference is compiled by its rule, and then described and made nullable. -/
theorem compileWith_eq_lowerBy (c : Compiler) (pending : List String) (o : Options) {schema : Value}
    (hr : schema.ref? = none) : compileWith c pending o schema
      = (lowerBy c pending o schema (Rule.of schema)).bind
        fun form => .ok (finish schema form) := by
  rw [compileWith, hr, ← lower_eq]
  rfl

/-- Where a schema has what its rule compiles. -/
def Rule.Reads (schema : Value) : Rule → Prop
  | .tagged d alts => schema.arr? "oneOf" = some alts ∧ discriminator? schema = some d
  | .allOf parts own => schema.arr? "allOf" = some parts ∧ schema.obj? "properties" = own
  | .alternatives alts => schema.arr? "oneOf" = some alts ∨ schema.arr? "anyOf" = some alts
  | .properties ps => schema.obj? "properties" = some ps
  | .array item => schema.get? "items" = item
  | .plain => True

theorem Rule.of_reads (schema : Value) : (Rule.of schema).Reads schema := by
  unfold Rule.of
  split
  · exact ⟨‹_›, ‹_›⟩
  · split
    · exact ⟨‹_›, rfl⟩
    · split
      · rename_i h
        rcases Option.or_eq_some_iff.1 h with h | ⟨-, h⟩
        · exact .inl h
        · exact .inr h
      · split
        · assumption
        · split_ifs
          · rfl
          · trivial

/-- The schemas that a rule compiles, or replaces if they are references. -/
def Rule.schemas : Rule → List Value
  | .tagged _ alts => alts
  | .allOf parts own => parts ++ (own.getD []).map Prod.snd
  | .alternatives alts => alts
  | .properties ps => ps.map Prod.snd
  | .array item => item.toList
  | .plain => []

/-- A value that stands somewhere inside another. -/
def Inside (s schema : Value) : Prop := sizeOf s < sizeOf schema ∧ s.refs ⊆ schema.refs

theorem inside_of_arr? {schema s : Value} {key : String} {items : List Value}
    (h : schema.arr? key = some items) (hs : s ∈ items) : Inside s schema := by
  refine ⟨Nat.lt_trans (List.sizeOf_lt_of_mem hs) (sizeOf_arr?_lt h), ?_⟩
  exact List.Subset.trans (Value.refs_subset_of_mem_items hs) (Value.refsOfItems_subset_of_arr? h)

theorem inside_of_obj? {schema s : Value} {key : String} {ms : Assoc Value}
    (h : schema.obj? key = some ms) (hs : s ∈ ms.map Prod.snd) : Inside s schema := by
  obtain ⟨⟨name, s⟩, hm, rfl⟩ := List.mem_map.1 hs
  refine ⟨Nat.lt_trans (sizeOf_lt_of_mem_members hm) (sizeOf_obj?_lt h), ?_⟩
  exact List.Subset.trans (Value.refs_subset_of_mem_members hm)
    (Value.refsOfMembers_subset_of_obj? h)

/-- What a rule compiles stands inside the schema, so compiling ends. -/
theorem Rule.inside_of_mem_schemas {schema s : Value} (hs : s ∈ (Rule.of schema).schemas) :
    Inside s schema := by
  have hr := Rule.of_reads schema
  rcases hrule : Rule.of schema with ⟨d, alts⟩ | ⟨parts, own⟩ | alts | ps | item | _ <;>
    rw [hrule] at hr hs <;> simp only [Rule.Reads, Rule.schemas] at hr hs
  case tagged =>
    exact inside_of_arr? hr.1 hs
  case allOf =>
    rcases List.mem_append.1 hs with hs | hs
    · exact inside_of_arr? hr.1 hs
    · rcases own with _ | ps
      · simp at hs
      · exact inside_of_obj? hr.2 hs
  case alternatives =>
    rcases hr with hr | hr
    · exact inside_of_arr? hr hs
    · exact inside_of_arr? hr hs
  case properties =>
    exact inside_of_obj? hr hs
  case array =>
    rw [Option.mem_toList] at hs
    subst hr
    exact ⟨sizeOf_get?_lt hs, Value.refs_subset_of_get? hs⟩
  case plain =>
    simp at hs

/-! ## Lists of schemas -/

section Lists

variable (c : Compiler) (pending : List String) (o : Options)

theorem compileItems_eq_mapM : ∀ schemas : List Value,
    compileItems c pending o schemas = schemas.mapM (compileWith c pending o)
  | [] => by rw [compileItems]; rfl
  | s :: rest => by
    rw [compileItems, List.mapM_cons, compileItems_eq_mapM rest]
    rfl

theorem compileMembers_eq_mapM : ∀ ms : List (String × Value), compileMembers c pending o ms
    = ms.mapM fun m => compileWith c pending o m.2 >>= fun v => .ok (m.1, v)
  | [] => by rw [compileMembers]; rfl
  | (name, s) :: rest => by
    rw [compileMembers, List.mapM_cons, compileMembers_eq_mapM rest]
    rcases compileWith c pending o s with e | v <;> rfl

/-- The validator of a part; a reference is replaced. -/
def partWith (part : Value) : Outcome Validator :=
  match part.ref? with
  | some r => expand c pending o true r
  | none => compileWith c pending o part

theorem compileParts_eq_mapM : ∀ parts : List Value,
    compileParts c pending o parts = parts.mapM (partWith c pending o)
  | [] => by rw [compileParts]; rfl
  | part :: rest => by
    rw [compileParts, List.mapM_cons, compileParts_eq_mapM rest, partWith]
    rcases part.ref? with _ | r <;> rfl

/-- Under a discriminator the references with a tag are replaced, one by one, and the rest is passed
over. -/
theorem variants_eq_mapM (d : Discriminator) (property : String) : ∀ alts : List Value,
    variants c pending o d property alts = (taggedReferences d alts).mapM fun m =>
      expand c pending o true m.1 >>= tagged property m.2 m.1
  | [] => by rw [variants]; rfl
  | alt :: rest => by
    have ih := variants_eq_mapM d property rest
    rw [variants, ih, taggedReferences.eq_def d (alt :: rest), List.filterMap_cons]
    rcases alt.ref? with _ | r
    · rfl
    · rcases ht : d.tagFor? r with _ | tag
      · simp only [Option.bind_eq_bind, Option.bind_some, ht, Option.bind_none]
        rfl
      · simp only [Option.bind_eq_bind, Option.bind_some, ht, List.mapM_cons, bind_assoc]
        rfl

theorem mem_of_mem_taggedReferences {d : Discriminator} {alts : List Value} {m : String × String}
    (h : m ∈ taggedReferences d alts) : ∃ alt ∈ alts, alt.ref? = some m.1 := by
  obtain ⟨alt, halt, hm⟩ := List.mem_filterMap.1 h
  obtain ⟨r, hr, hm⟩ := Option.bind_eq_some_iff.1 hm
  obtain ⟨tag, -, hm⟩ := Option.bind_eq_some_iff.1 hm
  cases hm
  exact ⟨alt, halt, hr⟩

end Lists

/-- The schema of all texts, which needs nothing of the document around it. -/
def textSchema : Value := .obj [("type", .str "string")]

theorem compileWith_textSchema (c : Compiler) (pending : List String) (o : Options) :
    compileWith c pending o textSchema = .ok (.plain .string) := by
  rw [compileWith_eq_lowerBy _ _ _ rfl]
  rfl

end ZodGen.Schema
