import ZodGen.Proofs.Causes
import ZodGen.Proofs.Rendering

/-!
# Names of a module

No name of a module's text is declared twice (`declared_once`). The first component whose name is
taken is where a document with two equal names fails, unless something else fails before.
-/

namespace ZodGen

namespace Outcome

variable {α β : Type} {cause : Cause}

/-- The outcome is an error with this cause. -/
def FailsFor (cause : Cause) (x : Outcome α) : Prop := ∃ e, x = .error e ∧ e.cause = cause

theorem FailsWith.not_failsFor {x : Outcome α} (h : FailsWith (· ≠ cause) x) :
    ¬ FailsFor cause x := by
  rintro ⟨e, he, hcause⟩
  exact h e he hcause

theorem not_failsFor_ok (a : α) : ¬ FailsFor cause (.ok a : Outcome α) :=
  (failsWith_ok a).not_failsFor

theorem failsFor_fail {other : Cause} (detail : String) :
    FailsFor cause (fail other detail : Outcome α) ↔ other = cause := by
  simp [FailsFor, fail]

/-- Two steps fail for a cause when the first does, or succeeds and then the second does. -/
theorem failsFor_bind {x : Outcome α} {f : α → Outcome β} :
    FailsFor cause (x >>= f) ↔ FailsFor cause x ∨ ∃ a, x = .ok a ∧ FailsFor cause (f a) := by
  rcases x with e | a <;> simp [FailsFor]

end Outcome

open Outcome

namespace Module

/-! ## Collisions -/

section Collisions

variable {c : Schema.Compiler}

theorem failsFor_bindingFor {owners : Assoc String} {name : String} :
    FailsFor .bindingCollision (bindingFor owners name) ↔ ∃ binding,
      BindingName.ofReference (Pointer.forComponent "schemas" name) = .ok binding
        ∧ binding ∈ takenBy owners := by
  have hname := BindingName.failsWith_ofReference (P := (· ≠ .bindingCollision)) (by decide)
    (Pointer.forComponent "schemas" name)
  unfold bindingFor
  rw [failsFor_bind, or_iff_right hname.not_failsFor]
  refine exists_congr fun binding => and_congr_right fun _ => ?_
  rw [takenBy, List.mem_append]
  split_ifs with hr
  · exact iff_of_true ((failsFor_fail _).2 rfl) (.inl (List.contains_iff_mem.1 hr))
  · rw [or_iff_right (by simpa using hr), ← not_iff_not, ← Assoc.get?_eq_none_iff]
    rcases Assoc.get? binding owners with _ | previous
    · simp [not_failsFor_ok]
    · simp [failsFor_fail]

/-- The name of a component is taken, or that of a component before it, and all before it are
bound. -/
def Collision (c : Schema.Compiler) (taken : List String) (schemas : Assoc Value) : Prop :=
  ∃ earlier name schema later components binding,
    schemas = earlier ++ (name, schema) :: later ∧ Declares c taken earlier components
      ∧ BindingName.ofReference (Pointer.forComponent "schemas" name) = .ok binding
      ∧ (binding ∈ taken ∨ ∃ m ∈ earlier,
        BindingName.ofReference (Pointer.forComponent "schemas" m.1) = .ok binding)

theorem not_collision_nil {taken : List String} : ¬ Collision c taken [] := by
  rintro ⟨earlier, name, schema, later, components, binding, h, -⟩
  simp at h

/-- The first component collides, or it is bound and, with its name taken, a later one does. By the
first component of the ones in front of the collision. -/
theorem collision_cons {taken : List String} {m : String × Value} {schemas : Assoc Value} :
    Collision c taken (m :: schemas) ↔ ∃ binding,
      BindingName.ofReference (Pointer.forComponent "schemas" m.1) = .ok binding
        ∧ (binding ∈ taken ∨ binding ∉ taken ∧ (∃ v, c.compile m.2 {} = .ok v)
          ∧ Collision c (taken ++ [binding]) schemas) := by
  constructor
  · rintro ⟨earlier, name, schema, later, components, binding, heq, hdecl, hname, htaken⟩
    rcases earlier with _ | ⟨first, earlier⟩
    · obtain ⟨rfl, rfl⟩ := List.cons.inj heq
      exact ⟨binding, hname, .inl (by simpa using htaken)⟩
    · obtain ⟨rfl, rfl⟩ := List.cons.inj heq
      obtain ⟨taking, v, rest, rfl, hfirst, hv, hnot, hrest⟩ := declares_cons.1 hdecl
      refine ⟨taking, hfirst, .inr ⟨hnot, ⟨v, hv⟩, earlier, name, schema, later, rest, binding,
        rfl, hrest, hname, ?_⟩⟩
      rcases htaken with h | ⟨m', hm', h⟩
      · exact .inl (List.mem_append_left _ h)
      · rcases List.mem_cons.1 hm' with rfl | hm'
        · rw [hfirst] at h
          exact .inl (by simp [Except.ok.inj h])
        · exact .inr ⟨m', hm', h⟩
  · rintro ⟨taking, hfirst, htaken | ⟨hnot, ⟨v, hv⟩, hrest⟩⟩
    · exact ⟨[], m.1, m.2, schemas, [], taking, rfl, declares_nil.2 rfl, hfirst, .inl htaken⟩
    · obtain ⟨earlier, name, schema, later, components, binding, rfl, hdecl, hname, htaken⟩ := hrest
      refine ⟨m :: earlier, name, schema, later, (taking, v) :: components, binding, rfl,
        declares_cons.2 ⟨taking, v, components, rfl, hfirst, hv, hnot, hdecl⟩, hname, ?_⟩
      rcases htaken with h | ⟨m', hm', h⟩
      · rcases List.mem_append.1 h with h | h
        · exact .inl h
        · rw [List.mem_singleton.1 h]
          exact .inr ⟨m, List.mem_cons_self, hfirst⟩
      · exact .inr ⟨m', List.mem_cons_of_mem _ hm', h⟩

/-- No schema fails for a name that is taken, so binding components does so exactly when one of
them collides. -/
theorem failsFor_compileComponents
    (hc : ∀ schema, ¬ FailsFor .bindingCollision (c.compile schema {})) :
    ∀ {schemas : Assoc Value} {owners : Assoc String},
      FailsFor .bindingCollision (compileComponents c owners schemas) ↔
        Collision c (takenBy owners) schemas
  | [], _ => iff_of_false (not_failsFor_ok _) not_collision_nil
  | (name, schema) :: schemas, owners => by
    simp only [compileComponents, failsFor_bind, failsFor_bindingFor, collision_cons, hc,
      bindingFor_eq_ok, failsFor_compileComponents hc, takenBy_append, not_failsFor_ok,
      false_or, and_false, exists_false, or_false]
    constructor
    · rintro (⟨binding, hname, htaken⟩ | ⟨binding, ⟨hname, hnot⟩, v, hv, hrest⟩)
      · exact ⟨binding, hname, .inl htaken⟩
      · exact ⟨binding, hname, .inr ⟨hnot, ⟨v, hv⟩, hrest⟩⟩
    · rintro ⟨binding, hname, htaken | ⟨hnot, ⟨v, hv⟩, hrest⟩⟩
      · exact .inl ⟨binding, hname, htaken⟩
      · exact .inr ⟨binding, ⟨hname, hnot⟩, v, hv, hrest⟩

end Collisions

/-! ## Modules -/

theorem failsWith_compile_schema (doc schema : Value) :
    FailsWith (· ≠ .bindingCollision) (Schema.Compiler.compile { root := doc } schema {}) :=
  Schema.Compiler.failsWith_compile (by decide)
    (BindingName.failsWith_ofReference (by decide)) schema

/-- Only binding components fails for a name that is taken. -/
theorem failsFor_compile {doc : Value} : FailsFor .bindingCollision (compile doc) ↔
    (doc.obj? "paths").isSome ∧ Collision { root := doc } reserved (schemas doc) := by
  have hops : ∀ ops : List Document.Operation,
      FailsWith (· ≠ .bindingCollision) (ops.mapM (Operation.compile { root := doc })) := fun ops =>
    failsWith_mapM fun op _ => Operation.failsWith_compile (by decide)
      (BindingName.failsWith_ofReference (by decide)) op
  have hcomponents : FailsFor .bindingCollision (compileComponents { root := doc } [] (schemas doc))
      ↔ Collision { root := doc } reserved (schemas doc) :=
    failsFor_compileComponents fun schema => (failsWith_compile_schema doc schema).not_failsFor
  unfold compile Document.operations Document.paths
  rcases doc.obj? "paths" with _ | items
  · simp [fail, FailsFor]
  · simp only [ok_bind, failsFor_bind, hcomponents, (hops _).not_failsFor, not_failsFor_ok,
      and_false, exists_false, or_false, Option.isSome_some, true_and]

/-! ## The text of a module -/

section Names

/-- The names of the validators of operations. -/
def operationNames : List Operation.Compiled → List String
  | [_] => ["requestSchema", "responseSchema"]
  | _ => ["requestSchemas", "responseSchemas"]

/-- The names that the text of a module declares, in order. -/
def names (m : Module) : List String :=
  "z" :: (Assoc.keys m.components ++ operationNames m.operations)

/-- A section of a module's text declares a name. -/
inductive Binds : String → String → Prop
  | zod : Binds "z" "import \x7b z \x7d from \"zod\";"
  | constant (exported : Bool) (name code : String) : Binds name (componentLine exported name code)

/-- A list of validators is bound as a validator is. -/
theorem listLine_eq (name : String) (codes : List String) : listLine name codes
    = componentLine true name
      (if codes.isEmpty then "[]" else "[\n  " ++ ",\n  ".intercalate codes ++ "\n]") := by
  have hempty : " = [];" = " = " ++ "[]" ++ ";" := by decide
  have hopen : " = [\n  " = " = " ++ "[\n  " := by decide
  have hclose : "\n];" = "\n]" ++ ";" := by decide
  unfold listLine
  split_ifs
  · simp only [componentLine, hempty, if_true, String.append_assoc]
  · simp only [componentLine, hopen, hclose, if_true, String.append_assoc]

theorem binds_listLine (name : String) (codes : List String) :
    Binds name (listLine name codes) := by
  rw [listLine_eq]
  exact .constant _ _ _

theorem binds_operationSections {ops : List Operation.Compiled} {lines : List String}
    (h : operationSections ops = .ok lines) : List.Forall₂ Binds (operationNames ops) lines := by
  by_cases hone : ∃ op, ops = [op]
  · obtain ⟨op, rfl⟩ := hone
    obtain ⟨request, -, h⟩ := bind_eq_ok.1 h
    obtain ⟨response, -, h⟩ := bind_eq_ok.1 h
    cases h
    exact .cons (.constant _ _ _) (.cons (.constant _ _ _) .nil)
  · have hmany : ∀ op, ops = [op] → False := fun op hop => hone ⟨op, hop⟩
    rw [operationSections.eq_2 ops hmany] at h
    obtain ⟨requests, -, h⟩ := bind_eq_ok.1 h
    obtain ⟨responses, -, h⟩ := bind_eq_ok.1 h
    cases h
    rw [operationNames.eq_2 ops hmany]
    exact .cons (binds_listLine _ _) (.cons (binds_listLine _ _) .nil)

/-- The sections of the text bind the names of the module, in order. -/
theorem binds_sections {m : Module} {exported : Bool} {lines : List String}
    (h : m.sections exported = .ok lines) : List.Forall₂ Binds m.names lines := by
  obtain ⟨components, hcomponents, h⟩ := bind_eq_ok.1 h
  obtain ⟨operations, hoperations, h⟩ := bind_eq_ok.1 h
  cases h
  refine .cons .zod (List.rel_append ?_ (binds_operationSections hoperations))
  refine List.forall₂_map_left_iff.2 ((mapM_eq_ok.1 hcomponents).imp fun b line hb => ?_)
  obtain ⟨code, -, hline⟩ := bind_eq_ok.1 hb
  cases hline
  exact .constant _ _ _

theorem exists_sections {doc : Value} {m : Module} (h : compile doc = .ok m) (exported : Bool) :
    ∃ lines, m.sections exported = .ok lines := by
  obtain ⟨text, htext⟩ := exists_render (fun v hv =>
    (Validator.exists_render_iff v).2 (renders_validators h v hv)) exported
  obtain ⟨lines, hlines, -⟩ := bind_eq_ok.1 htext
  exact ⟨lines, hlines⟩

theorem operationNames_subset (ops : List Operation.Compiled) :
    "z" :: operationNames ops ⊆ reserved := by
  unfold operationNames
  split <;> decide

theorem nodup_operationNames (ops : List Operation.Compiled) :
    ("z" :: operationNames ops).Nodup := by
  unfold operationNames
  split <;> decide

/-- Components have distinct names, and none of the reserved ones. -/
theorem Declares.nodup_names {c : Schema.Compiler} {schemas : Assoc Value} {m : Module}
    (h : Declares c reserved schemas m.components) : m.names.Nodup := by
  have hperm : m.names.Perm (("z" :: operationNames m.operations) ++ Assoc.keys m.components) :=
    List.perm_append_comm.cons "z"
  refine hperm.nodup_iff.2 (List.Nodup.append (nodup_operationNames _) h.nodup ?_)
  intro name hreserved hkey
  exact h.free name hkey (operationNames_subset m.operations hreserved)

end Names

/-- The bindings of a module that compiles are those of its schema components in order, each with
the validator of its schema, and the module's text declares every name once. Compiling fails for a
name that is taken exactly when the document has paths and one of its components collides. -/
theorem declared_once (doc : Value) :
    (∀ m, compile doc = .ok m → Declares { root := doc } reserved (schemas doc) m.components
      ∧ m.names.Nodup
      ∧ ∀ exported, ∃ lines, m.sections exported = .ok lines ∧ List.Forall₂ Binds m.names lines)
    ∧ (FailsFor .bindingCollision (compile doc) ↔
      (doc.obj? "paths").isSome ∧ Collision { root := doc } reserved (schemas doc)) := by
  refine ⟨fun m hm => ?_, failsFor_compile⟩
  obtain ⟨-, -, -, hcomponents, -⟩ := compile_eq_ok.1 hm
  have hdecl : Declares { root := doc } reserved (schemas doc) m.components :=
    compileComponents_eq_ok.1 hcomponents
  refine ⟨hdecl, hdecl.nodup_names, fun exported => ?_⟩
  obtain ⟨lines, hlines⟩ := exists_sections hm exported
  exact ⟨lines, hlines, binds_sections hlines⟩

open Schema (textSchema compileWith_textSchema)

/-- Two components whose names differ in the case of a letter only. -/
def twins : Value := .obj
  [("paths", .obj []),
   ("components", .obj [("schemas", .obj [("Pet", textSchema), ("pet", textSchema)])])]

theorem declared_once_twins : compile kennel = .ok kennelModule ∧ kennelModule.names.Nodup
    ∧ FailsFor .bindingCollision (compile twins) := by
  have hPet : BindingName.ofReference (Pointer.forComponent "schemas" "Pet") = .ok "petSchema" := by
    decide +kernel
  have hpet : BindingName.ofReference (Pointer.forComponent "schemas" "pet") = .ok "petSchema" := by
    decide +kernel
  have hdecl : Declares { root := twins } reserved [("Pet", textSchema)]
      [("petSchema", ⟨.string, none⟩)] :=
    ⟨.cons ⟨hPet, compileWith_textSchema _ _ _⟩ .nil, by decide, by decide⟩
  refine ⟨compile_kennel, ((declared_once kennel).1 _ compile_kennel).2.1, ?_⟩
  exact (declared_once twins).2.2 ⟨rfl, [("Pet", textSchema)], "pet", textSchema, [], _,
    "petSchema", rfl, hdecl, hpet, .inr ⟨_, List.mem_cons_self, hPet⟩⟩

end Module

end ZodGen
