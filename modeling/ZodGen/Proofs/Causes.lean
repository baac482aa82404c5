import ZodGen.Operation.Compile
import ZodGen.Proofs.Outcome
import ZodGen.Proofs.SchemaRule

/-!
# What compiling fails with

A schema fails for one of six causes, or for a cause that naming a component has; an operation has
three more. So no schema and no operation ever fails for a binding that is taken.

What is kept track of is the error as a whole (`Errs`), and then its cause alone (`FailsWith`).
-/

namespace ZodGen

/-! ## Outcomes -/

namespace Outcome

variable {α β : Type} {E : Error → Prop} {P : Cause → Prop}

/-- If the outcome is an error, it is one of these. -/
def Errs (E : Error → Prop) (x : Outcome α) : Prop := ∀ e, x = .error e → E e

theorem errs_ok (a : α) : Errs E (.ok a : Outcome α) := by
  intro e h
  cases h

theorem errs_fail {cause : Cause} {detail : String} (h : E ⟨cause, detail⟩) :
    Errs E (fail cause detail : Outcome α) := by
  intro e he
  cases he
  exact h

theorem Errs.bind_of_ok {x : Outcome α} {f : α → Outcome β} (hx : Errs E x)
    (hf : ∀ a, x = .ok a → Errs E (f a)) : Errs E (x >>= f) := by
  rcases x with e | a
  · intro e' h
    cases h
    exact hx e rfl
  · exact hf a rfl

theorem Errs.bind {x : Outcome α} {f : α → Outcome β} (hx : Errs E x)
    (hf : ∀ a, Errs E (f a)) : Errs E (x >>= f) :=
  hx.bind_of_ok fun a _ => hf a

theorem Errs.map {x : Outcome α} (hx : Errs E x) (f : α → β) :
    Errs E (x >>= fun a => .ok (f a)) :=
  hx.bind fun a => errs_ok (f a)

theorem errs_mapM {f : α → Outcome β} : ∀ {xs : List α}, (∀ x ∈ xs, Errs E (f x)) →
    Errs E (xs.mapM f)
  | [], _ => errs_ok []
  | x :: xs, h => by
    rw [List.mapM_cons]
    have hrest := errs_mapM fun y hy => h y (List.mem_cons_of_mem _ hy)
    exact (h x List.mem_cons_self).bind fun y => hrest.map fun ys => y :: ys

theorem errs_foldlM {f : β → α → Outcome β} : ∀ {xs : List α} {b : β},
    (∀ b, ∀ x ∈ xs, Errs E (f b x)) → Errs E (xs.foldlM f b)
  | [], b, _ => errs_ok b
  | x :: xs, b, h => by
    rw [List.foldlM_cons]
    exact (h b x List.mem_cons_self).bind fun c =>
      errs_foldlM fun b y hy => h b y (List.mem_cons_of_mem _ hy)

/-- If the outcome is an error, its cause is one of these. -/
def FailsWith (P : Cause → Prop) (x : Outcome α) : Prop := ∀ e, x = .error e → P e.cause

theorem failsWith_ok (a : α) : FailsWith P (.ok a : Outcome α) :=
  errs_ok (E := fun e => P e.cause) a

theorem failsWith_fail {cause : Cause} (h : P cause) (detail : String) :
    FailsWith P (fail cause detail : Outcome α) :=
  errs_fail (E := fun e => P e.cause) h

theorem FailsWith.bind {x : Outcome α} {f : α → Outcome β} (hx : FailsWith P x)
    (hf : ∀ a, FailsWith P (f a)) : FailsWith P (x >>= f) :=
  Errs.bind (E := fun e => P e.cause) hx hf

theorem FailsWith.map {x : Outcome α} (hx : FailsWith P x) (f : α → β) :
    FailsWith P (x >>= fun a => .ok (f a)) :=
  Errs.map (E := fun e => P e.cause) hx f

theorem failsWith_mapM {f : α → Outcome β} {xs : List α} (h : ∀ x ∈ xs, FailsWith P (f x)) :
    FailsWith P (xs.mapM f) :=
  errs_mapM (E := fun e => P e.cause) h

theorem failsWith_foldlM {f : β → α → Outcome β} {xs : List α} {b : β}
    (h : ∀ b, ∀ x ∈ xs, FailsWith P (f b x)) : FailsWith P (xs.foldlM f b) :=
  errs_foldlM (E := fun e => P e.cause) h

end Outcome

open Outcome

/-! ## References -/

namespace Reference

/-- Why a reference is not followed. -/
def causes : List Cause := [.unsupportedReferenceKind, .referenceNotFound, .circularReference]

variable {E : Error → Prop} {P : Cause → Prop}

/-- A reference is not resolved because of where it points to, or because nothing is there. -/
theorem errs_resolve (hkind : ∀ detail, E ⟨.unsupportedReferenceKind, detail⟩)
    (hfound : ∀ detail, E ⟨.referenceNotFound, detail⟩) (root : Value) (r : String) :
    Errs E (resolve root r) := by
  have hkeys : Errs E (keys r) := by
    unfold keys
    split
    · exact errs_ok _
    · exact errs_fail (hkind _)
  refine hkeys.bind fun ks => ?_
  split
  · exact errs_ok _
  · exact errs_fail (hfound _)

theorem failsWith_resolve (hP : ∀ cause ∈ causes, P cause) (root : Value) (r : String) :
    FailsWith P (resolve root r) :=
  errs_resolve (E := fun e => P e.cause) (fun _ => hP .unsupportedReferenceKind (by decide))
    (fun _ => hP .referenceNotFound (by decide)) root r

/-- A chain of references ends in a value, at a reference that is not resolved, or at one that was
taken before. -/
theorem failsWith_follow (hP : ∀ cause ∈ causes, P cause) (root : Value) (pending : List String)
    (v : Value) : FailsWith P (follow root pending v) := by
  fun_induction follow root pending v with
  | case1 => exact failsWith_ok _
  | case2 pending v r hr hm next hnext ih => exact ih
  | case3 pending v r hr hm e he =>
    rw [← he]
    exact failsWith_resolve hP root r
  | case4 => exact failsWith_fail (hP _ (by decide)) _

end Reference

/-! ## Schemas -/

namespace Schema

/-- Why a schema is not compiled. -/
def causes : List Cause :=
  [.invalidDiscriminatedUnion, .invalidEnum, .missingArrayItems] ++ Reference.causes

/-- Why a rule fails by itself. -/
def ruleCauses : List Cause := [.invalidDiscriminatedUnion, .invalidEnum, .missingArrayItems]

section Rule

variable {E : Error → Prop} {c : Compiler} {pending : List String} {o : Options}
  (hE : ∀ cause ∈ ruleCauses, ∀ detail, E ⟨cause, detail⟩)

include hE

theorem errs_tagged (property tag r : String) (v : Validator) :
    Errs E (tagged property tag r v) := by
  unfold tagged
  split
  · exact errs_ok _
  · exact errs_fail (hE _ (by decide) _)

theorem errs_enumTexts : ∀ values : List Value, Errs E (enumTexts values)
  | [] => errs_ok []
  | v :: values => by
    cases v with
    | str s => exact (errs_enumTexts values).map _
    | _ => exact errs_fail (hE _ (by decide) _)

theorem errs_enumForm (values : Value) : Errs E (enumForm values) := by
  unfold enumForm
  split
  · exact errs_fail (hE _ (by decide) _)
  · exact (errs_enumTexts hE _).map _
  · exact errs_fail (hE _ (by decide) _)

theorem errs_plainForm (schema : Value) : Errs E (plainForm o schema) := by
  unfold plainForm
  split
  · split_ifs
    · exact errs_ok _
    · split
      · exact errs_enumForm hE _
      · exact errs_ok _
  all_goals exact errs_ok _

/-- A rule fails by itself, or with what it compiles or replaces. -/
theorem errs_lowerBy (schema : Value) (rule : Rule)
    (h : ∀ s ∈ rule.schemas, Errs E (compileWith c pending o s))
    (he : ∀ s ∈ rule.schemas, ∀ r, s.ref? = some r → Errs E (expand c pending o true r)) :
    Errs E (lowerBy c pending o schema rule) := by
  rcases rule with ⟨d, alts⟩ | ⟨parts, own⟩ | alts | ps | item | _ <;>
    simp only [Rule.schemas] at h he <;> simp only [lowerBy]
  case tagged =>
    split
    · exact errs_fail (hE _ (by decide) _)
    · rw [variants_eq_mapM]
      refine (errs_mapM fun m hm => ?_).map _
      obtain ⟨alt, halt, hr⟩ := mem_of_mem_taggedReferences hm
      exact (he alt halt m.1 hr).bind fun v => errs_tagged hE _ _ _ v
  case allOf =>
    rw [compileParts_eq_mapM]
    refine Errs.bind (errs_mapM fun part hp => ?_) fun compiled => ?_
    · unfold partWith
      split
      · rename_i r hr
        exact he part (List.mem_append_left _ hp) r hr
      · exact h part (List.mem_append_left _ hp)
    · rcases own with _ | ps
      · exact errs_ok _
      · simp only [compileMembers_eq_mapM]
        exact (errs_mapM fun m hm =>
          (h m.2 (List.mem_append_right _ (List.mem_map_of_mem hm))).map _).map _
  case alternatives =>
    rw [compileItems_eq_mapM]
    exact (errs_mapM h).map _
  case properties =>
    rw [compileMembers_eq_mapM]
    exact (errs_mapM fun m hm => (h m.2 (List.mem_map_of_mem hm)).map _).map _
  case array =>
    rcases item with _ | item
    · exact errs_fail (hE _ (by decide) _)
    · exact (h item (by simp)).map _
  case plain =>
    exact errs_plainForm hE schema

/-- A schema fails like its rule, or like the name or the replacement of its reference. -/
theorem errs_compileWith (schema : Value)
    (hname : ∀ r, schema.ref? = some r → Errs E (c.bindingName r))
    (hexpand : ∀ r, schema.ref? = some r → Errs E (expand c pending o false r))
    (h : ∀ s ∈ (Rule.of schema).schemas, Errs E (compileWith c pending o s))
    (he : ∀ s ∈ (Rule.of schema).schemas, ∀ r, s.ref? = some r →
      Errs E (expand c pending o true r)) :
    Errs E (compileWith c pending o schema) := by
  rw [compileWith]
  split
  · rename_i r hr
    split_ifs
    · exact (hname r hr).map _
    · exact hexpand r hr
  · rw [lower_eq]
    exact (errs_lowerBy hE schema _ h he).map _

end Rule

section Schema

variable {P : Cause → Prop} {c : Compiler} {pending : List String} {o : Options}
  (hP : ∀ cause ∈ causes, P cause) (hn : ∀ r, FailsWith P (c.bindingName r))

include hP hn

/-- A schema fails for a cause of its own, or as a reference in it does. -/
theorem failsWith_compileWith (he : ∀ r follow, FailsWith P (expand c pending o follow r))
    (schema : Value) : FailsWith P (compileWith c pending o schema) := by
  refine errs_compileWith (E := fun e => P e.cause)
    (fun cause h _ => hP cause (List.mem_append_left _ h)) schema (fun r _ => hn r)
    (fun r _ => he r false) (fun s hs => ?_) fun s _ r _ => he r true
  exact failsWith_compileWith he s
termination_by sizeOf schema
decreasing_by exact (Rule.inside_of_mem_schemas hs).1

/-- By induction on the references that may still be replaced: the target of one is compiled without
it. -/
theorem failsWith_expand (pending : List String) (r : String) (follow : Bool) :
    FailsWith P (expand c pending o follow r) := by
  rw [expand]
  split_ifs with hm
  · have ih : ∀ s follow, FailsWith P (expand c (Reference.others r pending) o follow s) :=
      fun s follow => failsWith_expand _ s follow
    have hresolve := Reference.failsWith_resolve
      (fun cause h => hP cause (List.mem_append_right _ h)) c.root r
    rcases hres : Reference.resolve c.root r with e | target
    · intro e' he'
      cases he'
      exact hresolve e hres
    · simp only []
      split
      · exact ih _ true
      · exact failsWith_compileWith hP hn ih target
  · exact failsWith_fail (hP _ (by decide)) _
termination_by pending.length
decreasing_by exact Reference.length_others_lt hm

theorem Compiler.failsWith_compile (schema : Value) : FailsWith P (c.compile schema o) :=
  failsWith_compileWith hP hn (failsWith_expand hP hn _) schema

end Schema

end Schema

/-! ## Operations -/

theorem BindingName.failsWith_ofReference {P : Cause → Prop} (h : P .invalidReference)
    (r : String) : FailsWith P (ofReference r) := by
  unfold ofReference
  simp only []
  split_ifs
  · exact failsWith_fail h _
  · exact failsWith_ok _

namespace Operation

/-- Why an operation is not compiled. -/
def causes : List Cause :=
  [.missingParameterSchema, .noResponsesDefined, .unsupportedStatusCode] ++ Schema.causes

section Operation

variable {P : Cause → Prop} {c : Schema.Compiler} (hP : ∀ cause ∈ causes, P cause)

include hP

theorem failsWith_resolveObject (root v : Value) :
    FailsWith P (Reference.resolveObject root v) :=
  Reference.failsWith_follow (fun cause h =>
    hP cause (List.mem_append_right _ (List.mem_append_right _ h))) root _ v

theorem failsWith_mergedParameters (root : Value) (op : Document.Operation) :
    FailsWith P (mergedParameters root op) :=
  (failsWith_mapM fun p _ => failsWith_resolveObject hP root p).map _

theorem failsWith_classify (key : String) : FailsWith P (classify key) := by
  unfold classify
  split_ifs
  · exact failsWith_ok _
  · split
    · exact failsWith_ok _
    · exact failsWith_ok _
    · exact failsWith_fail (hP _ (by decide)) _

variable (hn : ∀ r, FailsWith P (c.bindingName r))

include hn

theorem failsWith_compileSchema (schema : Value) (o : Schema.Options) :
    FailsWith P (c.compile schema o) :=
  Schema.Compiler.failsWith_compile (fun cause h => hP cause (List.mem_append_right _ h)) hn schema

theorem failsWith_mediaValidator (media : Value) : FailsWith P (mediaValidator c media) := by
  unfold mediaValidator
  split
  · exact failsWith_compileSchema hP hn _ _
  · exact failsWith_ok _

theorem failsWith_addParameter (label : String) (ps : Parameters) (p : Value) :
    FailsWith P (addParameter c label ps p) := by
  unfold addParameter
  simp only []
  split
  · exact failsWith_ok _
  · exact failsWith_ok _
  · split
    · exact failsWith_fail (hP _ (by decide)) _
    · exact (failsWith_compileSchema hP hn _ _).map _

theorem failsWith_bodies (op : Value) : FailsWith P (bodies c op) := by
  unfold bodies
  split
  · exact failsWith_ok _
  · refine (failsWith_resolveObject hP c.root _).bind fun body => ?_
    simp only []
    split
    · exact failsWith_ok _
    · exact failsWith_mapM fun m _ => (failsWith_mediaValidator hP hn m.2).map _

theorem failsWith_responseHeaders (response : Value) :
    FailsWith P (responseHeaders c response) :=
  failsWith_foldlM fun _ m _ => (failsWith_resolveObject hP c.root m.2).bind fun _ =>
    (failsWith_compileSchema hP hn _ _).map _

theorem failsWith_responseBranches (requestType : Option String) (tagged : Bool) (key : String)
    (raw : Value) : FailsWith P (responseBranches c requestType tagged key raw) := by
  unfold responseBranches
  refine (failsWith_classify hP key).bind fun status => ?_
  refine (failsWith_resolveObject hP c.root raw).bind fun response => ?_
  refine (failsWith_responseHeaders hP hn response).bind fun headers => ?_
  refine FailsWith.map (failsWith_mapM fun m _ => ?_) _
  obtain ⟨contentType, _ | media⟩ := m
  · exact failsWith_ok _
  · exact (failsWith_mediaValidator hP hn media).map _

theorem failsWith_responses (requestType : Option String) (tagged : Bool) (ms : Assoc Value) :
    FailsWith P (responses c requestType tagged ms) := by
  unfold responses
  refine FailsWith.bind (failsWith_mapM fun m _ =>
    failsWith_responseBranches hP hn requestType tagged m.1 m.2) fun found => ?_
  simp only []
  split
  · exact failsWith_ok _
  · exact failsWith_ok _

/-- An operation fails for one of the causes of operations. -/
theorem failsWith_compile (op : Document.Operation) : FailsWith P (compile c op) := by
  unfold compile
  refine (failsWith_mergedParameters hP c.root op).bind fun merged => ?_
  refine FailsWith.bind (failsWith_foldlM fun ps p _ =>
    failsWith_addParameter hP hn (label op) ps p) fun ps => ?_
  refine (failsWith_bodies hP hn op.body).bind fun variants => ?_
  simp only []
  split
  · exact failsWith_fail (hP _ (by decide)) _
  · exact failsWith_mapM fun variant _ => (failsWith_responses hP hn _ _ _).map _

end Operation

end Operation

end ZodGen
