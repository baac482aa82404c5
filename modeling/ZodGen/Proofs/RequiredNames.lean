import ZodGen.Proofs.Inlining

/-!
# Required names of merged parts

An object made of parts requires the names that its schema lists and the names that its parts
require, and no others (`exists_shape_of_allOf`). A part that is an object because of its own parts
or properties requires the names that its schema lists (`required_subset_of_lowerBy`). Other rules
leave that list unread: a single alternative stands for the whole schema, whatever that requires.
-/

namespace ZodGen

namespace Shape

variable {α : Type} {s : Shape α} {name : String}

theorem mem_required_require {names : List String} :
    name ∈ (s.require names).required ↔ name ∈ s.required ∨ name ∈ names :=
  mem_foldl_addName

theorem mem_required_absorb {other : Shape α} :
    name ∈ (s.absorb other).required ↔ name ∈ s.required ∨ name ∈ other.required :=
  mem_foldl_addName

end Shape

namespace Schema

open Outcome

theorem mem_required_absorbParts {name : String} : ∀ {vs : List Validator} {s : Shape Validator},
    name ∈ (absorbParts s vs).required
      ↔ name ∈ s.required ∨ ∃ v ∈ vs, ∃ t, v.shape? = some t ∧ name ∈ t.required
  | [], s => by simp [absorbParts]
  | v :: vs, s => by
    rw [absorbParts, List.foldl_cons]
    rcases hv : v.shape? with _ | p
    · refine mem_required_absorbParts.trans ?_
      simp [hv]
    · refine mem_required_absorbParts.trans ?_
      simp [hv, Shape.mem_required_absorb, or_assoc]

/-- A schema has a shape only if its form is an object, since a nullable one has none. -/
theorem shape?_finish {schema : Value} {form : Form Validator} {s : Shape Validator}
    (h : (finish schema form).shape? = some s) : form = .object s := by
  unfold finish at h
  split_ifs at h
  · cases h
  · rcases form <;> cases h
    rfl

/-- The rules that make an object of a schema with the names it lists as required. -/
def Rule.readsRequired : Rule → Bool
  | .allOf _ _ => true
  | .properties _ => true
  | _ => false

section Lowered

variable {c : Compiler} {pending : List String} {o : Options} {schema : Value}

theorem exists_shape_of_allOf {parts : List Value} {own : Option (Assoc Value)}
    {form : Form Validator} (h : lowerBy c pending o schema (.allOf parts own) = .ok form) :
    ∃ vs shape, parts.mapM (partWith c pending o) = .ok vs ∧ form = .object shape
      ∧ ∀ name, name ∈ shape.required
        ↔ name ∈ required schema ∨ ∃ v ∈ vs, ∃ t, v.shape? = some t ∧ name ∈ t.required := by
  rw [lowerBy, compileParts_eq_mapM] at h
  obtain ⟨vs, hvs, h⟩ := bind_eq_ok.1 h
  rcases own with _ | ps
  · cases h
    refine ⟨vs, _, hvs, rfl, fun name => ?_⟩
    simp [mem_required_absorbParts, Shape.mem_required_require, Shape.empty]
  · obtain ⟨own, -, h⟩ := bind_eq_ok.1 h
    cases h
    refine ⟨vs, _, hvs, rfl, fun name => ?_⟩
    simp only [mem_required_absorbParts, Shape.mem_required_absorb, Shape.mem_required_require,
      Shape.empty, List.not_mem_nil, false_or]
    exact ⟨fun h => h.elim id .inl, .inl⟩

/-- A rule that reads `required` puts all its names into the shape. -/
theorem required_subset_of_lowerBy {rule : Rule} (hrule : rule.readsRequired = true)
    {s : Shape Validator} (h : lowerBy c pending o schema rule = .ok (.object s)) :
    required schema ⊆ s.required := by
  rcases rule with ⟨d, alts⟩ | ⟨parts, own⟩ | alts | ps | item | _
  case allOf =>
    obtain ⟨vs, shape, -, hform, hnames⟩ := exists_shape_of_allOf h
    cases hform
    exact fun name hname => (hnames name).2 (.inl hname)
  case properties =>
    rw [lowerBy] at h
    obtain ⟨own, -, h⟩ := bind_eq_ok.1 h
    cases h
    exact fun name hname => Shape.mem_required_require.2 (.inr hname)
  all_goals cases hrule

end Lowered

/-- Merging parts loses no required name, wherever a schema is compiled. The list that an inline
part has under `required` counts in full if the part is an object because of its own parts or
properties. -/
theorem required_subset_of_allOf {c : Compiler} {pending : List String} {o : Options}
    {schema : Value} {parts : List Value} {own : Option (Assoc Value)} {v : Validator}
    (href : schema.ref? = none) (hrule : Rule.of schema = .allOf parts own)
    (h : compileWith c pending o schema = .ok v) :
    ∃ shape, v = finish schema (.object shape) ∧ required schema ⊆ shape.required
      ∧ ∀ part ∈ parts, part.ref? = none → ∃ u, c.compile part o = .ok u
        ∧ ∀ s, u.shape? = some s → s.required ⊆ shape.required
          ∧ ((Rule.of part).readsRequired = true → required part ⊆ shape.required) := by
  rw [compileWith_eq_lowerBy _ _ _ href, hrule] at h
  obtain ⟨form, hform, h⟩ := bind_eq_ok.1 h
  cases h
  obtain ⟨vs, shape, hvs, rfl, hnames⟩ := exists_shape_of_allOf hform
  refine ⟨shape, rfl, fun name hname => (hnames name).2 (.inl hname), fun part hpart hnone => ?_⟩
  obtain ⟨u, hu, hcompiled⟩ := exists_of_mem_of_mapM hvs hpart
  rw [partWith, hnone] at hcompiled
  refine ⟨u, compile_of_compileWith hcompiled, fun s hs => ?_⟩
  have hsub : s.required ⊆ shape.required :=
    fun name hname => (hnames name).2 (.inr ⟨u, hu, s, hs, hname⟩)
  refine ⟨hsub, fun hreads => List.Subset.trans ?_ hsub⟩
  rw [compileWith_eq_lowerBy _ _ _ hnone] at hcompiled
  obtain ⟨form, hform, hfinish⟩ := bind_eq_ok.1 hcompiled
  cases hfinish
  rw [shape?_finish hs] at hform
  exact required_subset_of_lowerBy hreads hform

/-- A schema with one property, a text that may not be absent. -/
def neededField (name : String) : Value :=
  .obj [("properties", .obj [(name, .obj [("type", .str "string")])]),
    ("required", .arr [.str name])]

theorem compileWith_neededField (c : Compiler) (pending : List String) (name : String) :
    compileWith c pending {} (neededField name)
      = .ok (.object ⟨[(name, .plain .string)], [name]⟩) := by
  rw [compileWith_eq_lowerBy _ _ _ rfl]
  show ((compileMembers _ _ _ [(name, textSchema)] >>= _) >>= _) = _
  rw [compileMembers, compileWith_textSchema, compileMembers]
  rfl

/-- A box with a size, and a lid of any kind. -/
def box : Value :=
  .obj [("allOf", .arr [neededField "size"]), ("required", .arr [.str "lid"])]

theorem compileWith_box (c : Compiler) (pending : List String) :
    compileWith c pending {} box
      = .ok (.object ⟨[("size", .plain .string)], ["lid", "size"]⟩) := by
  have hsize : partWith c pending {} (neededField "size")
      = .ok (.object ⟨[("size", .plain .string)], ["size"]⟩) := compileWith_neededField _ _ _
  rw [compileWith_eq_lowerBy _ _ _ rfl]
  show ((compileParts _ _ _ [neededField "size"] >>= _) >>= _) = _
  rw [compileParts_eq_mapM, List.mapM_cons, hsize, List.mapM_nil]
  rfl

/-- A box with a mark and a place. -/
def crate : Value :=
  .obj [("allOf", .arr [box, neededField "mark"]), ("required", .arr [.str "place"])]

theorem compile_crate (c : Compiler) : c.compile crate {}
    = .ok (.object ⟨[("size", .plain .string), ("mark", .plain .string)],
        ["place", "lid", "size", "mark"]⟩) := by
  have hbox : ∀ pending, partWith c pending {} box
      = .ok (.object ⟨[("size", .plain .string)], ["lid", "size"]⟩) := compileWith_box c
  have hmark : ∀ pending, partWith c pending {} (neededField "mark")
      = .ok (.object ⟨[("mark", .plain .string)], ["mark"]⟩) :=
    fun pending => compileWith_neededField c pending _
  rw [Compiler.compile, compileWith_eq_lowerBy _ _ _ rfl]
  show ((compileParts _ _ _ [box, neededField "mark"] >>= _) >>= _) = _
  rw [compileParts_eq_mapM, List.mapM_cons, hbox, List.mapM_cons, hmark, List.mapM_nil]
  rfl

theorem required_subset_of_allOf_crate : ∃ v shape,
    Compiler.compile { root := .obj [] } crate {} = .ok v ∧ v = finish crate (.object shape)
      ∧ "place" ∈ shape.required ∧ "lid" ∈ shape.required ∧ "size" ∈ shape.required := by
  obtain ⟨shape, hv, hown, hparts⟩ := required_subset_of_allOf rfl rfl
    (compile_crate { root := .obj [] })
  obtain ⟨u, hu, hbox⟩ := hparts box List.mem_cons_self rfl
  cases hu.symm.trans (compileWith_box _ _)
  obtain ⟨hnames, hlist⟩ := hbox _ rfl
  exact ⟨_, shape, compile_crate _, hv, hown (by decide), hlist rfl (by decide), hnames (by decide)⟩

/-- A size as the only alternative. -/
def sizeOnly : Value :=
  .obj [("anyOf", .arr [fieldSchema "size"]), ("required", .arr [.str "size"])]

theorem compileWith_sizeOnly (c : Compiler) (pending : List String) :
    compileWith c pending {} sizeOnly = .ok (.object ⟨[("size", .plain .string)], []⟩) := by
  rw [compileWith_eq_lowerBy _ _ _ rfl]
  show ((compileItems _ _ _ [fieldSchema "size"] >>= _) >>= _) = _
  rw [compileItems, compileWith_fieldSchema, compileItems]
  rfl

/-- An object of which nothing is said but that it has a lid. -/
def lidOnly : Value := .obj [("type", .str "object"), ("required", .arr [.str "lid"])]

theorem compileWith_lidOnly (c : Compiler) (pending : List String) :
    compileWith c pending {} lidOnly = .ok (.object ⟨[], []⟩) := by
  rw [compileWith_eq_lowerBy _ _ _ rfl]
  rfl

/-- Both parts are objects, the first by its one alternative, and neither requires the name that it
lists. -/
theorem required_not_subset_sizeOnly : ∃ shape,
    Rule.of (withParts [] [sizeOnly, lidOnly]) = .allOf [sizeOnly, lidOnly] none
      ∧ Compiler.compile { root := .obj [] } (withParts [] [sizeOnly, lidOnly]) {}
        = .ok (.object shape)
      ∧ ∀ part ∈ [sizeOnly, lidOnly], part.ref? = none
        ∧ (∃ s, Compiler.compile { root := .obj [] } part {} = .ok (.object s))
        ∧ ¬ required part ⊆ shape.required := by
  have hsize : ∀ c pending, partWith c pending {} sizeOnly
      = .ok (.object ⟨[("size", .plain .string)], []⟩) := compileWith_sizeOnly
  have hlid : ∀ c pending, partWith c pending {} lidOnly = .ok (.object ⟨[], []⟩) :=
    compileWith_lidOnly
  refine ⟨⟨[("size", .plain .string)], []⟩, rfl, ?_, ?_⟩
  · rw [compile_withParts_nil, lowerBy, compileParts_eq_mapM, List.mapM_cons, hsize, List.mapM_cons,
      hlid, List.mapM_nil]
    rfl
  · intro part hpart
    simp only [List.mem_cons, List.not_mem_nil, or_false] at hpart
    rcases hpart with rfl | rfl
    · exact ⟨rfl, ⟨_, compileWith_sizeOnly _ _⟩, by decide⟩
    · exact ⟨rfl, ⟨_, compileWith_lidOnly _ _⟩, by decide⟩

end Schema

end ZodGen
