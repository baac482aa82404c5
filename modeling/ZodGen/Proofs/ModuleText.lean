import ZodGen.Module.Render
import ZodGen.Proofs.Outcome
import ZodGen.Proofs.ReferenceNames
import ZodGen.Text.Blank

/-!
# Sections of a module

The text of a module by its sections: what each of them binds, if it may be cut, and the names in
the reference nodes of the validators written in it. The live components of a module are those that
its operations lead to, and leaving out the others leaves out their sections (`parts_shaken`).
-/

namespace ZodGen.Module

/-- A section of a module's text. -/
structure Part where
  text : String
  /-- The name it binds for this module alone. -/
  binds : Option String
  /-- The names in the reference nodes of its validators. -/
  refers : List String

/-- The section of a component. -/
def componentPart (exported : Bool) (b : String × Validator) : Outcome Part := do
  .ok ⟨componentLine exported b.1 (← b.2.render), if exported then none else some b.1,
    b.2.references⟩

/-- The sections of the requests and of the responses. -/
def operationParts : List Operation.Compiled → Outcome (Part × Part)
  | [op] => do
    let request ← op.request.render
    let response ← op.response.render
    .ok (⟨componentLine true "requestSchema" request, none, op.request.references⟩,
      ⟨componentLine true "responseSchema" response, none, op.response.references⟩)
  | ops => do
    let requests ← ops.mapM fun op => op.request.render
    let responses ← ops.mapM fun op => op.response.render
    .ok (⟨listLine "requestSchemas" requests, none, ops.flatMap fun op => op.request.references⟩,
      ⟨listLine "responseSchemas" responses, none,
        ops.flatMap fun op => op.response.references⟩)

/-- The section that every module starts with. -/
def importPart : Part := ⟨"import \x7b z \x7d from \"zod\";", none, []⟩

/-- The sections of a module: all but the last, and the last. -/
def parts (m : Module) (exported : Bool) : Outcome (List Part × Part) := do
  let components ← m.components.mapM (componentPart exported)
  let (requests, responses) ← operationParts m.operations
  .ok (importPart :: (components ++ [requests]), responses)

/-! ## The text of the sections -/

section Text

/-- A section with the empty line below it. -/
def spaced (part : Part) : List Char := part.text.toList ++ ['\n', '\n']

/-- The text of sections, the last of which has no empty line below it. -/
def textOf (front : List Part) (last : Part) : List Char :=
  front.flatMap spaced ++ (last.text.toList ++ ['\n'])

theorem toList_intercalate_parts (last : Part) : ∀ front : List Part,
    ("\n\n".intercalate ((front ++ [last]).map Part.text) ++ "\n").toList = textOf front last
  | [] => by
    simp [textOf]
  | part :: front => by
    have ih := toList_intercalate_parts last front
    rw [List.cons_append, List.map_cons, String.intercalate_cons_of_ne_nil (by simp)]
    rw [String.toList_append] at ih ⊢
    simp only [textOf, String.toList_append, List.flatMap_cons, spaced, List.append_assoc] at ih ⊢
    rw [ih]
    rfl

theorem map_bind {α β γ : Type} (x : Outcome α) (f : α → Outcome β) (g : β → γ) :
    (x >>= f).map g = x >>= fun a => (f a).map g := by
  cases x <;> rfl

theorem operationSections_eq : ∀ ops : List Operation.Compiled,
    operationSections ops = (operationParts ops).map fun ps => [ps.1.text, ps.2.text]
  | [] => rfl
  | [op] => by
    simp only [operationSections, operationParts, map_bind]
    rfl
  | op :: op' :: ops => by
    simp only [operationSections, operationParts, map_bind]
    rfl

theorem mapM_componentPart (exported : Bool) : ∀ bs : List (String × Validator),
    (bs.mapM fun (name, v) => do Except.ok (componentLine exported name (← v.render)))
      = (bs.mapM (componentPart exported)).map fun ps => ps.map Part.text
  | [] => rfl
  | (name, v) :: bs => by
    rw [List.mapM_cons, List.mapM_cons, mapM_componentPart exported bs, map_bind]
    rcases hv : v.render with e | code
    · simp [componentPart, hv]
    · rcases bs.mapM (componentPart exported) with e | ps <;> simp [componentPart, hv] <;> rfl

/-- The sections of a module are the texts of its parts. -/
theorem sections_eq (m : Module) (exported : Bool) : m.sections exported
    = (m.parts exported).map fun ps => (ps.1 ++ [ps.2]).map Part.text := by
  unfold sections parts
  rw [mapM_componentPart, operationSections_eq]
  rcases m.components.mapM (componentPart exported) with e | cs
  · rfl
  · rcases operationParts m.operations with e | ⟨requests, responses⟩
    · rfl
    · show Except.ok _ = Except.ok _
      simp [importPart]

/-- A module is written as its sections, with an empty line between any two. -/
theorem render_eq_ok {m : Module} {exported : Bool} {text : String} :
    m.render exported = .ok text ↔
      ∃ front last, m.parts exported = .ok (front, last) ∧ text.toList = textOf front last := by
  unfold render
  rw [sections_eq]
  rcases m.parts exported with e | ⟨front, last⟩
  · simp [Except.map]
  · have hjoin := toList_intercalate_parts last front
    constructor
    · intro h
      refine ⟨front, last, rfl, ?_⟩
      rw [← hjoin]
      exact congrArg String.toList (Except.ok.inj h).symm
    · rintro ⟨front', last', heq, htext⟩
      cases heq
      rw [← hjoin] at htext
      rw [String.toList_injective htext]
      rfl

end Text

/-! ## What the sections hold -/

section Contents

variable {m : Module} {exported : Bool} {front : List Part} {last : Part}

/-- The names in the reference nodes of the operations. -/
def operationReferences (ops : List Operation.Compiled) : List String :=
  ops.flatMap fun op => op.request.references ++ op.response.references

/-- A section whose text does not start with a blank. -/
def Part.Opens (part : Part) : Prop :=
  ∃ c, part.text.toList.head? = some c ∧ Text.isBlank c = false

theorem opens_componentLine (exported : Bool) (name code : String) (binds : Option String)
    (refers : List String) : Part.Opens ⟨componentLine exported name code, binds, refers⟩ := by
  cases exported
  · exact ⟨'c', by simp [componentLine], by decide⟩
  · exact ⟨'e', by simp [componentLine], by decide⟩

theorem opens_listLine (name : String) (codes : List String) (refers : List String) :
    Part.Opens ⟨listLine name codes, none, refers⟩ := by
  refine ⟨'e', ?_, by decide⟩
  rw [listLine]
  split <;> simp

theorem componentPart_eq_ok {b : String × Validator} {part : Part}
    (h : componentPart exported b = .ok part) :
    part.binds = (if exported then none else some b.1) ∧ part.refers = b.2.references
      ∧ part.Opens := by
  obtain ⟨code, -, hpart⟩ := Outcome.bind_eq_ok.1 h
  cases hpart
  exact ⟨rfl, rfl, opens_componentLine _ _ _ _ _⟩

/-- The parts for operations bind nothing for the module alone, and refer to what the operations
refer to. -/
theorem operationParts_eq_ok : ∀ {ops : List Operation.Compiled} {requests responses : Part},
    operationParts ops = .ok (requests, responses) →
      (∀ part, part = requests ∨ part = responses → part.binds = none ∧ part.Opens)
        ∧ ∀ name, name ∈ operationReferences ops ↔
            name ∈ requests.refers ∨ name ∈ responses.refers
  | [op], requests, responses, h => by
    obtain ⟨request, -, h⟩ := Outcome.bind_eq_ok.1 h
    obtain ⟨response, -, h⟩ := Outcome.bind_eq_ok.1 h
    cases h
    refine ⟨?_, fun name => by simp [operationReferences]⟩
    rintro part (rfl | rfl) <;> exact ⟨rfl, opens_componentLine _ _ _ _ _⟩
  | [], requests, responses, h => by
    cases h
    refine ⟨?_, fun name => by simp [operationReferences]⟩
    rintro part (rfl | rfl) <;> exact ⟨rfl, opens_listLine _ _ _⟩
  | op :: op' :: ops, requests, responses, h => by
    obtain ⟨rs, -, h⟩ := Outcome.bind_eq_ok.1 h
    obtain ⟨rs', -, h⟩ := Outcome.bind_eq_ok.1 h
    cases h
    refine ⟨?_, fun name => ?_⟩
    · rintro part (rfl | rfl) <;> exact ⟨rfl, opens_listLine _ _ _⟩
    · simp only [operationReferences, List.mem_flatMap, List.mem_append]
      rw [← exists_or]
      simp only [and_or_left]

/-- A module has the part of its import first, then those of its components, and those of its
operations last. -/
theorem parts_eq_ok : m.parts exported = .ok (front, last) ↔
    ∃ components requests, m.components.mapM (componentPart exported) = .ok components
      ∧ operationParts m.operations = .ok (requests, last)
      ∧ front = importPart :: (components ++ [requests]) := by
  unfold parts
  rw [Outcome.bind_eq_ok]
  refine exists_congr fun components => ?_
  rw [Outcome.bind_eq_ok]
  constructor
  · rintro ⟨hcs, ⟨requests, responses⟩, hops, h⟩
    cases h
    exact ⟨requests, hcs, hops, rfl⟩
  · rintro ⟨requests, hcs, hops, rfl⟩
    exact ⟨hcs, (requests, last), hops, rfl⟩

/-- Every section stands for the import, for a component or for the operations. -/
theorem mem_parts (h : m.parts exported = .ok (front, last)) {part : Part}
    (hpart : part ∈ front ++ [last]) :
    part.Opens ∧ ((∃ b ∈ m.components, componentPart exported b = .ok part)
      ∨ (part.binds = none ∧ ∀ name ∈ part.refers, name ∈ operationReferences m.operations)) := by
  obtain ⟨components, requests, hcs, hops, rfl⟩ := parts_eq_ok.1 h
  obtain ⟨hplain, hrefers⟩ := operationParts_eq_ok hops
  have hcase : part = importPart ∨ part ∈ components ∨ part = requests ∨ part = last := by
    simpa [or_assoc] using hpart
  rcases hcase with rfl | hmem | hmem
  · exact ⟨⟨'i', rfl, by decide⟩, .inr ⟨rfl, fun name hname => absurd hname (by simp [importPart])⟩⟩
  · obtain ⟨b, hb, hpart⟩ := Outcome.exists_of_mem_mapM hcs hmem
    exact ⟨(componentPart_eq_ok hpart).2.2, .inl ⟨b, hb, hpart⟩⟩
  · refine ⟨(hplain part hmem).2, .inr ⟨(hplain part hmem).1, fun name hname => ?_⟩⟩
    refine (hrefers name).2 ?_
    rcases hmem with rfl | rfl
    · exact .inl hname
    · exact .inr hname

/-- A section that may be cut is that of the component it binds. -/
theorem component_of_binds (h : m.parts exported = .ok (front, last)) {part : Part}
    (hpart : part ∈ front ++ [last]) {name : String} (hbinds : part.binds = some name) :
    exported = false ∧ ∃ b ∈ m.components, b.1 = name ∧ part.refers = b.2.references := by
  rcases (mem_parts h hpart).2 with ⟨b, hb, hok⟩ | ⟨hnone, -⟩
  · obtain ⟨hname, hrefers, -⟩ := componentPart_eq_ok hok
    rw [hbinds] at hname
    cases exported
    · exact ⟨rfl, b, hb, (Option.some.inj hname).symm, hrefers⟩
    · simp at hname
  · simp [hbinds] at hnone

theorem operation_of_binds (h : m.parts false = .ok (front, last)) {part : Part}
    (hpart : part ∈ front ++ [last]) (hbinds : part.binds = none) {name : String}
    (hname : name ∈ part.refers) : name ∈ operationReferences m.operations := by
  rcases (mem_parts h hpart).2 with ⟨b, -, hok⟩ | ⟨-, hrefers⟩
  · simp [(componentPart_eq_ok hok).1] at hbinds
  · exact hrefers name hname

theorem exists_part_of_component (h : m.parts exported = .ok (front, last))
    {b : String × Validator} (hb : b ∈ m.components) :
    ∃ part ∈ front ++ [last], componentPart exported b = .ok part := by
  obtain ⟨components, requests, hcs, -, rfl⟩ := parts_eq_ok.1 h
  obtain ⟨part, hmem, hpart⟩ := Outcome.exists_of_mem_of_mapM hcs hb
  exact ⟨part, by simp [hmem], hpart⟩

theorem exists_part_of_operation (h : m.parts exported = .ok (front, last)) {name : String}
    (hname : name ∈ operationReferences m.operations) :
    ∃ part ∈ front ++ [last], part.binds = none ∧ name ∈ part.refers := by
  obtain ⟨components, requests, -, hops, rfl⟩ := parts_eq_ok.1 h
  obtain ⟨hplain, hrefers⟩ := operationParts_eq_ok hops
  rcases (hrefers name).1 hname with hname | hname
  · exact ⟨requests, by simp, (hplain _ (.inl rfl)).1, hname⟩
  · exact ⟨last, by simp, (hplain _ (.inr rfl)).1, hname⟩

/-- The sections at both ends stay. -/
theorem parts_ends (h : m.parts exported = .ok (front, last)) :
    last.binds = none ∧ ∃ rest, front = importPart :: rest := by
  obtain ⟨components, requests, -, hops, rfl⟩ := parts_eq_ok.1 h
  exact ⟨((operationParts_eq_ok hops).1 _ (.inr rfl)).1, _, rfl⟩

end Contents

/-! ## Live components -/

section Shaken

/-- The components that the operations of a module lead to. -/
inductive Live (m : Module) : String → Prop
  | operation {name : String} (h : name ∈ operationReferences m.operations)
      (hkey : name ∈ Assoc.keys m.components) : Live m name
  | component {b : String × Validator} {name : String} (hb : b ∈ m.components)
      (hlive : Live m b.1) (h : name ∈ b.2.references)
      (hkey : name ∈ Assoc.keys m.components) : Live m name

open Classical in
/-- A module without the components that are not live. -/
noncomputable def shaken (m : Module) : Module :=
  { m with components := m.components.filter fun b => m.Live b.1 }

open Classical in
/-- Whether a section stays: it binds no name of the module, or that of a live component. -/
noncomputable def keeps (m : Module) (part : Part) : Bool :=
  part.binds.all fun name => m.Live name

theorem keeps_of_binds {m : Module} {part : Part} (h : part.binds = none) :
    m.keeps part = true := by
  simp [keeps, h]

theorem keeps_iff {m : Module} {part : Part} {name : String} (h : part.binds = some name) :
    m.keeps part = true ↔ m.Live name := by
  simp [keeps, h]

open Classical in
theorem mapM_componentPart_filter (m : Module) : ∀ {bs : List (String × Validator)}
    {ps : List Part}, bs.mapM (componentPart false) = .ok ps →
      (bs.filter fun b => m.Live b.1).mapM (componentPart false) = .ok (ps.filter m.keeps)
  | [], ps, h => by
    cases h
    rfl
  | b :: bs, ps, h => by
    rw [List.mapM_cons] at h
    obtain ⟨part, hpart, h⟩ := Outcome.bind_eq_ok.1 h
    obtain ⟨rest, hrest, h⟩ := Outcome.bind_eq_ok.1 h
    cases h
    have ih := mapM_componentPart_filter m hrest
    have hkeeps := keeps_iff (m := m) (componentPart_eq_ok hpart).1
    by_cases hlive : m.Live b.1
    · rw [List.filter_cons_of_pos (by simpa using hlive),
        List.filter_cons_of_pos (hkeeps.2 hlive), List.mapM_cons, hpart, ih]
      rfl
    · rw [List.filter_cons_of_neg (by simpa using hlive),
        List.filter_cons_of_neg (fun hk => hlive (hkeeps.1 hk)), ih]

/-- Without the components that are not live, a module has the sections that stay. -/
theorem parts_shaken {m : Module} {front : List Part} {last : Part}
    (h : m.parts false = .ok (front, last)) :
    m.shaken.parts false = .ok (front.filter m.keeps, last) := by
  obtain ⟨components, requests, hcs, hops, rfl⟩ := parts_eq_ok.1 h
  have hrequests := ((operationParts_eq_ok hops).1 _ (.inl rfl)).1
  refine parts_eq_ok.2 ⟨components.filter m.keeps, requests, mapM_componentPart_filter m hcs, hops,
    ?_⟩
  rw [List.filter_cons_of_pos (keeps_of_binds rfl), List.filter_append,
    List.filter_cons_of_pos (keeps_of_binds hrequests), List.filter_nil]

theorem mem_keys_shaken {m : Module} {name : String} :
    name ∈ Assoc.keys m.shaken.components ↔ name ∈ Assoc.keys m.components ∧ m.Live name := by
  simp only [Assoc.keys, shaken, List.mem_map, List.mem_filter, decide_eq_true_eq]
  constructor
  · rintro ⟨b, ⟨hb, hlive⟩, rfl⟩
    exact ⟨⟨b, hb, rfl⟩, hlive⟩
  · rintro ⟨⟨b, hb, rfl⟩, hlive⟩
    exact ⟨b, ⟨hb, hlive⟩, rfl⟩

/-- What leads to a component that stays, stays. -/
theorem Live.shaken {m : Module} {name : String} (h : m.Live name) : m.shaken.Live name := by
  induction h with
  | operation hname hkey =>
    exact .operation hname (mem_keys_shaken.2 ⟨hkey, .operation hname hkey⟩)
  | component hb hlive hname hkey ih =>
    have hstays : _ ∈ m.shaken.components := List.mem_filter.2 ⟨hb, by simpa using hlive⟩
    exact .component hstays ih hname (mem_keys_shaken.2 ⟨hkey, .component hb hlive hname hkey⟩)

end Shaken

end ZodGen.Module
