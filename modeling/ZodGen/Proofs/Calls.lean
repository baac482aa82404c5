import ZodGen.Proofs.Outcome
import ZodGen.Proofs.SchemaRule
import ZodGen.Schema.Session

/-!
# The calls of a compiler

A compiler with its stack does two kinds of work: it compiles a schema, or it replaces a reference.
`Worker.step` is the work for one call, given the work for the calls that it makes in turn, and the
compiler answers every call by such a step (`perform_eq_step`).

A call to compile a schema makes its calls on the same stack, for what stands in the schema
(`yields_step_compile`). A call to replace a reference makes one call at most, with the reference on
the stack, and takes the reference off again (`yields_step_target`).
-/

namespace ZodGen.Schema

namespace Work

variable {α β : Type} {stack : List String}

/-- The work ends with an outcome and leaves the stack as it was. -/
def Yields (x : Work α) (stack : List String) (out : Outcome α) : Prop :=
  x.run.run stack = some (out, stack)

theorem yields_pure (a : α) : Yields (pure a) stack (.ok a) := rfl

theorem yields_throw (e : Error) : Yields (throw e : Work α) stack (.error e) := rfl

theorem yields_ofExcept (out : Outcome α) : Yields (ofExcept out) stack out := by
  rcases out with e | a <;> rfl

theorem Yields.bind {x : Work α} {f : α → Work β} {out : Outcome α} {g : α → Outcome β}
    (hx : Yields x stack out) (hf : ∀ a, Yields (f a) stack (g a)) :
    Yields (x >>= f) stack (out >>= g) := by
  unfold Yields at hx ⊢
  rw [ExceptT.run_bind, StateT.run_bind, hx]
  rcases out with e | a
  · rfl
  · exact hf a

theorem Yields.map {x : Work α} {out : Outcome α} (hx : Yields x stack out) (f : α → β) :
    Yields (x >>= fun a => pure (f a)) stack (out >>= fun a => .ok (f a)) :=
  hx.bind fun a => yields_pure (f a)

theorem yields_mapM {f : α → Work β} {g : α → Outcome β} : ∀ {xs : List α},
    (∀ x ∈ xs, Yields (f x) stack (g x)) → Yields (xs.mapM f) stack (xs.mapM g)
  | [], _ => yields_pure []
  | x :: xs, h => by
    rw [List.mapM_cons, List.mapM_cons]
    have hrest := yields_mapM fun y hy => h y (List.mem_cons_of_mem _ hy)
    exact (h x List.mem_cons_self).bind fun y => hrest.map fun ys => y :: ys

end Work

/-! ## Calls -/

/-- What a compiler is asked for. -/
inductive Call where
  /-- The validator of a schema. -/
  | compile (schema : Value)
  /-- The validator of what a reference leads to. -/
  | expand (follow : Bool) (r : String)

namespace Call

/-- The call for a part under `allOf`; a reference is replaced. -/
def ofPart (part : Value) : Call :=
  match part.ref? with
  | some r => .expand true r
  | none => .compile part

/-- The call for a target; with `follow`, one that is itself a reference is replaced as well. -/
def ofTarget (follow : Bool) (target : Value) : Call :=
  match target.ref?, follow with
  | some next, true => .expand true next
  | _, _ => .compile target

/-- How much of a schema a call has before it. Replacing a reference has none. -/
noncomputable def size : Call → Nat
  | .compile schema => sizeOf schema
  | .expand _ _ => 0

/-- The references that a call knows of. -/
def refs : Call → List String
  | .compile schema => schema.refs
  | .expand _ r => [r]

/-- A call for something that stands inside a schema. -/
def Inside (call : Call) (schema : Value) : Prop :=
  call.size < sizeOf schema ∧ call.refs ⊆ schema.refs

theorem inside_expand {schema : Value} {r : String} (h : r ∈ schema.refs) (follow : Bool) :
    (expand follow r).Inside schema := by
  refine ⟨?_, by simpa [refs] using h⟩
  show 0 < sizeOf schema
  exact Nat.pos_of_ne_zero (by cases schema <;> simp)

theorem inside_ofPart {schema part : Value} (h : Schema.Inside part schema) :
    (ofPart part).Inside schema := by
  unfold ofPart
  split
  · rename_i r hr
    exact inside_expand (h.2 (Value.mem_refs_of_ref? hr)) true
  · exact h

theorem refs_ofTarget_subset (follow : Bool) (target : Value) :
    (ofTarget follow target).refs ⊆ target.refs := by
  unfold ofTarget
  split
  · rename_i next hnext
    simpa [refs] using Value.mem_refs_of_ref? hnext
  · exact List.Subset.refl _

/-- The outcome of a call when the references in `pending` may still be replaced. -/
def outcome (w : Worker) (pending : List String) : Call → Outcome Validator
  | .compile schema => compileWith w.compiler pending w.options schema
  | .expand follow r => Schema.expand w.compiler pending w.options follow r

theorem outcome_ofPart (w : Worker) (pending : List String) (part : Value) :
    (ofPart part).outcome w pending = partWith w.compiler pending w.options part := by
  unfold ofPart partWith
  rcases part.ref? with _ | r <;> rfl

/-- A reference that may be replaced has the outcome of its target, which may not replace it
again. -/
theorem outcome_expand_of_mem {w : Worker} {pending : List String} {r : String} (h : r ∈ pending)
    (follow : Bool) : (expand follow r).outcome w pending
      = Reference.resolve w.compiler.root r >>= fun target =>
        (ofTarget follow target).outcome w (Reference.others r pending) := by
  rw [outcome, Schema.expand, dif_pos h]
  rcases Reference.resolve w.compiler.root r with e | target
  · rfl
  · simp only [Outcome.ok_bind, ofTarget.eq_def]
    rcases target.ref? with _ | next
    · rfl
    · cases follow <;> rfl

/-- A reference that may not be replaced any more is circular. -/
theorem outcome_expand_of_notMem {w : Worker} {pending : List String} {r : String}
    (h : r ∉ pending) (follow : Bool) :
    (expand follow r).outcome w pending = fail .circularReference r := by
  rw [outcome, Schema.expand, dif_neg h]

end Call

namespace Worker

open Work

variable {w : Worker} {next : Call → Work Validator} {stack pending : List String}

/-- The properties of a schema, with the names it requires. -/
def shapeStep (next : Call → Work Validator) (schema : Value) (ps : Assoc Value) :
    Work (Shape Validator) := do
  let compiled ← ps.mapM fun m => do return (m.1, ← next (.compile m.2))
  return (Shape.mk compiled []).require (required schema)

/-- The form of a schema without `$ref`, by its rule. -/
def lowerStep (w : Worker) (next : Call → Work Validator) (schema : Value) :
    Rule → Work (Form Validator)
  | .tagged d alts =>
    match d.propertyName? with
    | none => throw ⟨.invalidDiscriminatedUnion, "discriminator has no propertyName"⟩
    | some property => do
      let variants ← (taggedReferences d alts).mapM fun m => do
        ofExcept (tagged property m.2 m.1 (← next (.expand true m.1)))
      return .discriminatedUnion property variants
  | .allOf parts own => do
    let compiled ← parts.mapM fun part => next (.ofPart part)
    let shape := absorbParts (Shape.empty.require (required schema)) compiled
    match own with
    | none => return .object shape
    | some ps => return .object (shape.absorb (← shapeStep next schema ps))
  | .alternatives alts => do
    return Schema.alternatives (← alts.mapM fun alt => next (.compile alt))
  | .properties ps => do return .object (← shapeStep next schema ps)
  | .array none =>
    throw ⟨.missingArrayItems, (schema.str? "description").getD "array schema"⟩
  | .array (some item) => do return .array (← next (.compile item))
  | .plain => ofExcept (plainForm w.options schema)

/-- The work for one call; `next` is the work for the calls that it makes. -/
def step (w : Worker) (next : Call → Work Validator) : Call → Work Validator
  | .compile schema =>
    match schema.ref? with
    | some r =>
      if (Reference.schemaName? r).isSome then do
        return ⟨.reference (← ofExcept (w.compiler.bindingName r)), schema.str? "description"⟩
      else next (.expand false r)
    | none => do return finish schema (← w.lowerStep next schema (Rule.of schema))
  | .expand follow r => do
    if r ∈ (← get) then throw ⟨.circularReference, r⟩
    let target ← ofExcept (Reference.resolve w.compiler.root r)
    modify (r :: ·)
    show StateT (List String) Option (Outcome Validator) from do
      let outcome ← (next (.ofTarget follow target)).run
      modify List.tail
      return outcome

/-- The work that a compiler does for a call. -/
def perform (w : Worker) : Call → Work Validator
  | .compile schema => w.compile schema
  | .expand follow r => w.expand follow r

theorem perform_ofPart (part : Value) : w.perform (.ofPart part) = w.compilePart part := by
  rw [compilePart, Call.ofPart]
  rcases part.ref? with _ | r <;> rfl

theorem perform_ofTarget (follow : Bool) (target : Value) :
    w.perform (.ofTarget follow target) = w.compileTarget follow target := by
  rw [compileTarget.eq_def, Call.ofTarget.eq_def]
  rcases target.ref? with _ | next
  · rfl
  · cases follow <;> rfl

theorem lower_eq_lowerStep (schema : Value) :
    w.lower schema = w.lowerStep w.perform schema (Rule.of schema) := by
  rw [lower]
  rcases Rule.of schema with ⟨d, alts⟩ | ⟨parts, own⟩ | alts | ps | item | _ <;>
    simp only [lowerStep, objectShape, shapeStep, perform_ofPart]
  all_goals rfl

/-- A compiler answers every call by a step. -/
theorem perform_eq_step (call : Call) : w.perform call = w.step w.perform call := by
  cases call with
  | compile schema =>
    rw [perform, compile, step, lower_eq_lowerStep]
    rfl
  | expand follow r =>
    rw [perform, expand, step]
    simp only [perform_ofTarget]

/-! ## What a step yields -/

theorem yields_shapeStep (schema : Value) {ps : Assoc Value}
    (h : ∀ m ∈ ps, Yields (next (.compile m.2)) stack
      (compileWith w.compiler pending w.options m.2)) :
    Yields (shapeStep next schema ps) stack
      (compileMembers w.compiler pending w.options ps >>= fun own =>
        .ok ((Shape.mk own []).require (required schema))) := by
  rw [shapeStep, compileMembers_eq_mapM]
  exact (yields_mapM fun m hm => (h m hm).map _).map _

/-- The step for a rule yields what the rule compiles, if the calls for what stands in the schema
yield theirs. One case for each rule, in the order in which it makes the calls. -/
theorem yields_lowerStep (schema : Value)
    (h : ∀ call : Call, call.Inside schema → Yields (next call) stack (call.outcome w pending)) :
    Yields (w.lowerStep next schema (Rule.of schema)) stack
      (Schema.lower w.compiler pending w.options schema) := by
  have hs : ∀ s ∈ (Rule.of schema).schemas, Inside s schema :=
    fun s hm => Rule.inside_of_mem_schemas hm
  rw [lower_eq]
  rcases hrule : Rule.of schema with ⟨d, alts⟩ | ⟨parts, own⟩ | alts | ps | item | _ <;>
    rw [hrule] at hs <;> simp only [Rule.schemas] at hs <;> simp only [lowerStep, lowerBy]
  case tagged =>
    rcases d.propertyName? with _ | property
    · exact yields_throw _
    · simp only [variants_eq_mapM]
      refine (yields_mapM fun m hm => ?_).map _
      obtain ⟨alt, halt, hr⟩ := mem_of_mem_taggedReferences hm
      have hcall := Call.inside_expand ((hs alt halt).2 (Value.mem_refs_of_ref? hr)) true
      exact (h _ hcall).bind fun v => yields_ofExcept _
  case allOf =>
    rw [compileParts_eq_mapM]
    have hparts : Yields (parts.mapM fun part => next (.ofPart part)) stack
        (parts.mapM (partWith w.compiler pending w.options)) := yields_mapM fun part hp => by
      rw [← Call.outcome_ofPart]
      exact h _ (Call.inside_ofPart (hs part (List.mem_append_left _ hp)))
    refine hparts.bind fun compiled => ?_
    rcases own with _ | ps
    · exact yields_pure _
    · have hown := yields_shapeStep schema fun m hm =>
        h (.compile m.2) (hs m.2 (List.mem_append_right _ (List.mem_map_of_mem hm)))
      have hform := hown.map fun own => Form.object
        ((absorbParts (Shape.empty.require (required schema)) compiled).absorb own)
      rwa [bind_assoc] at hform
  case alternatives =>
    rw [compileItems_eq_mapM]
    exact (yields_mapM fun alt halt => h (.compile alt) (hs alt halt)).map _
  case properties =>
    have hown := yields_shapeStep schema fun m hm =>
      h (.compile m.2) (hs m.2 (List.mem_map_of_mem hm))
    have hform := hown.map Form.object
    rwa [bind_assoc] at hform
  case array =>
    rcases item with _ | item
    · exact yields_throw _
    · exact (h (.compile item) (hs item (by simp))).map _
  case plain =>
    exact yields_ofExcept _

/-- To compile a schema, it is enough that the calls for what stands in it are answered. -/
theorem yields_step_compile (schema : Value)
    (h : ∀ call : Call, call.Inside schema → Yields (next call) stack (call.outcome w pending)) :
    Yields (w.step next (.compile schema)) stack ((Call.compile schema).outcome w pending) := by
  rw [step, Call.outcome, compileWith]
  rcases hr : schema.ref? with _ | r
  · exact (yields_lowerStep schema h).map _
  · simp only []
    split_ifs
    · exact (yields_ofExcept _).map _
    · exact h _ (Call.inside_expand (Value.mem_refs_of_ref? hr) false)

section Expand

variable {follow : Bool} {r : String}

theorem yields_step_circular (hr : r ∈ stack) :
    Yields (w.step next (.expand follow r)) stack (fail .circularReference r) := by
  rw [step]
  show (if r ∈ stack then _ else _ : Work Validator).run.run stack = _
  rw [if_pos hr]
  rfl

theorem yields_step_unresolved (hr : r ∉ stack) {e : Error}
    (h : Reference.resolve w.compiler.root r = .error e) :
    Yields (w.step next (.expand follow r)) stack (.error e) := by
  rw [step, h]
  show (if r ∈ stack then _ else _ : Work Validator).run.run stack = _
  rw [if_neg hr]
  rfl

/-- A reference that is not on the stack goes on it for its target, and then comes off. -/
theorem run_step_target (hr : r ∉ stack) {target : Value}
    (h : Reference.resolve w.compiler.root r = .ok target) :
    (w.step next (.expand follow r)).run.run stack
      = ((next (.ofTarget follow target)).run.run (r :: stack)).map fun result =>
        (result.1, result.2.tail) := by
  rw [step, h]
  show (if r ∈ stack then _ else _ : Work Validator).run.run stack = _
  rw [if_neg hr]
  show (next (.ofTarget follow target)).run.run (r :: stack) >>= _ = _
  rcases (next (.ofTarget follow target)).run.run (r :: stack) with _ | result <;> rfl

/-- A reference yields what its target does with the reference on the stack. -/
theorem yields_step_target (hr : r ∉ stack) {target : Value}
    (h : Reference.resolve w.compiler.root r = .ok target) {out : Outcome Validator}
    (ht : Yields (next (.ofTarget follow target)) (r :: stack) out) :
    Yields (w.step next (.expand follow r)) stack out := by
  unfold Yields at ht ⊢
  rw [run_step_target hr h, ht]
  rfl

end Expand

end Worker

end ZodGen.Schema
