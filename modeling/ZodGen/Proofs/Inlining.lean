import ZodGen.Proofs.Merging

/-!
# References among the parts

A part that is a reference may be replaced by its target, if the schema compiles at all
(`compile_inline`). In the second run the reference is not being replaced while its target is
compiled, so more references may be replaced there than in the first. That can spare a schema the
error that a reference is circular, and it changes nothing else (`adapts_outcome`).
-/

namespace ZodGen.Schema

open Outcome

theorem Call.ofTarget_true (v : Value) : Call.ofTarget true v = Call.ofPart v := by
  rw [Call.ofTarget.eq_def, Call.ofPart]
  rcases v.ref? with _ | r <;> rfl

/-- The error that a reference is circular. -/
def IsCircular (e : Error) : Prop := e.cause = .circularReference

section Part

variable {R : String → Prop} {c : Compiler} {o : Options} {pending pending' : List String}

theorem allows_all (h : ∀ r, R r → r ∈ pending') (pending : List String) :
    Allows R IsCircular pending pending' :=
  ⟨fun r hr _ => h r hr, fun _ _ _ _ => rfl⟩

/-- A part that compiles does so alike when more references may be replaced. -/
theorem adapts_part (hc : Reference.Closed R c.root) (hp : Allows R IsCircular pending pending')
    {part : Value} (hpart : ∀ r ∈ part.refs, R r) :
    Adapts IsCircular o o (partWith c pending o part) (partWith c pending' o part) := by
  rw [← Call.outcome_ofPart ⟨c, o⟩, ← Call.outcome_ofPart ⟨c, o⟩, ← Call.ofTarget_true]
  exact adapts_outcome hc id _ _ hp _ fun r hr => hpart r (Call.refs_ofTarget_subset true part hr)

/-- A reference as a part compiles like its target as a part, but for circular references. -/
theorem adapts_target (hc : Reference.Closed R c.root) (h : ∀ r, R r → r ∈ pending') {r : String}
    (hr : r ∈ pending) {target : Value} (hres : Reference.resolve c.root r = .ok target)
    (htarget : ∀ s ∈ target.refs, R s) : Adapts IsCircular o o
      (partWith c pending o (.obj [("$ref", .str r)])) (partWith c pending' o target) := by
  have hexpand : partWith c pending o (.obj [("$ref", .str r)])
      = (Call.ofTarget true target).outcome ⟨c, o⟩ (Reference.others r pending) := by
    show (Call.expand true r).outcome ⟨c, o⟩ pending = _
    rw [Call.outcome_expand_of_mem hr, hres]
    rfl
  rw [hexpand, Call.ofTarget_true, Call.outcome_ofPart]
  exact adapts_part hc (allows_all h _) htarget

/-- What compiles while some references are being replaced compiles so on its own. -/
theorem compile_of_compileWith {schema : Value} {v : Validator}
    (h : compileWith c pending o schema = .ok v) : c.compile schema o = .ok v := by
  have hadapts : Adapts IsCircular o o (compileWith c pending o schema) (c.compile schema o) :=
    adapts_outcome (Worker.closed_append_refs schema.refs c.root) id _ _
      (allows_all (fun _ hr => hr) pending) (.compile schema) fun _ hr => List.mem_append_left _ hr
  rw [hadapts.eq_ok h, Validator.adapt_eq_self rfl]

end Part

theorem compile_withParts_nil (c : Compiler) (parts : List Value) (o : Options) :
    c.compile (withParts [] parts) o
      = lowerBy c (Value.refsOfItems parts ++ c.root.refs) o (.obj []) (.allOf parts none)
        >>= fun form => .ok ⟨form, none⟩ := by
  rw [Compiler.compile, refs_withParts_nil, compileWith_eq_lowerBy _ _ _ rfl]
  rfl

/-- Parts that compile alike may take the place of others. -/
theorem compile_of_parts {c : Compiler} {o : Options} {v : Validator} {parts parts' : List Value}
    (hparts : List.Forall₂ (fun part part' => Adapts IsCircular o o
      (partWith c (Value.refsOfItems parts ++ c.root.refs) o part)
      (partWith c (Value.refsOfItems parts' ++ c.root.refs) o part')) parts parts')
    (h : c.compile (withParts [] parts) o = .ok v) :
    c.compile (withParts [] parts') o = .ok v := by
  rw [compile_withParts_nil] at h ⊢
  have hform := tracks_allOf (.obj []) none hparts (by simp)
  have hv : Adapts IsCircular o o _ _ := hform.map fun form _ hform =>
    (Validator.adapt_mk form none).trans (by rw [hform])
  rw [hv.eq_ok h, Validator.adapt_eq_self rfl]

/-- A part that is a reference may be replaced by what it leads to, also when that is a reference
again. -/
theorem compile_inline {c : Compiler} {ps qs : List Value} {r : String} {target : Value}
    {o : Options} {v : Validator} (hres : Reference.resolve c.root r = .ok target)
    (h : c.compile (withParts [] (ps ++ [.obj [("$ref", .str r)]] ++ qs)) o = .ok v) :
    c.compile (withParts [] (ps ++ [target] ++ qs)) o = .ok v := by
  have hclosed := Worker.closed_append_refs (Value.refsOfItems (ps ++ qs)) c.root
  -- the second run starts with every reference that it can meet still to be replaced
  have hall : ∀ s, s ∈ Value.refsOfItems (ps ++ qs) ++ c.root.refs →
      s ∈ Value.refsOfItems (ps ++ [target] ++ qs) ++ c.root.refs := by
    intro s hs
    simp only [refsOfItems_append, List.mem_append] at hs ⊢
    tauto
  have hrefs : ∀ part ∈ ps ++ qs, ∀ s ∈ part.refs,
      s ∈ Value.refsOfItems (ps ++ qs) ++ c.root.refs := by
    intro part hpart s hs
    exact List.mem_append_left _ (Value.refs_subset_of_mem_items hpart hs)
  refine compile_of_parts (List.rel_append (List.rel_append ?_ (.cons ?_ .nil)) ?_) h
  · refine List.forall₂_same.2 fun part hpart => ?_
    exact adapts_part hclosed (allows_all hall _) (hrefs part (List.mem_append_left _ hpart))
  · refine adapts_target hclosed hall ?_ hres fun s hs => ?_
    · simp [refsOfItems_append, Value.refsOfItems, Value.refs, Value.refsOfMembers]
    · exact List.mem_append_right _ (Reference.refs_subset_of_resolve hres hs)
  · refine List.forall₂_same.2 fun part hpart => ?_
    exact adapts_part hclosed (allows_all hall _) (hrefs part (List.mem_append_right _ hpart))

/-- A schema with one property, a text. -/
def fieldSchema (name : String) : Value :=
  .obj [("properties", .obj [(name, .obj [("type", .str "string")])])]

theorem compileWith_fieldSchema (c : Compiler) (pending : List String) (name : String) :
    compileWith c pending {} (fieldSchema name)
      = .ok (.object ⟨[(name, .plain .string)], []⟩) := by
  rw [compileWith_eq_lowerBy _ _ _ rfl]
  show ((compileMembers _ _ _ [(name, textSchema)] >>= _) >>= _) = _
  rw [compileMembers, compileWith_textSchema, compileMembers]
  rfl

/-- A document in which a label is another name of a tag. -/
def labels : Value :=
  .obj [("label", .obj [("$ref", .str "#/tag")]), ("tag", fieldSchema "tag")]

def labelled : Validator :=
  .object ⟨[("id", .plain .string), ("tag", .plain .string), ("note", .plain .string)], []⟩

theorem resolve_label : Reference.resolve labels "#/label" = .ok (.obj [("$ref", .str "#/tag")]) :=
  Reference.resolve_eq_ok.2 ⟨["label"], by decide +kernel, rfl⟩

/-- The label is replaced by the tag that it names, between two other parts. -/
theorem compile_label : Compiler.compile { root := labels }
    (withParts [] ([fieldSchema "id"] ++ [.obj [("$ref", .str "#/label")]] ++ [fieldSchema "note"]))
    {} = .ok labelled := by
  have hresolve : Reference.resolve labels "#/tag" = .ok (fieldSchema "tag") :=
    Reference.resolve_eq_ok.2 ⟨["tag"], by decide +kernel, rfl⟩
  have htag : expand { root := labels } (Reference.others "#/label" ["#/label", "#/tag"]) {} true
      "#/tag" = .ok (.object ⟨[("tag", .plain .string)], []⟩) := by
    rw [expand, dif_pos (by decide)]
    simp only [hresolve]
    show compileWith _ _ _ (fieldSchema "tag") = _
    rw [compileWith_fieldSchema]
  have hlabel : partWith { root := labels } ["#/label", "#/tag"] {}
      (.obj [("$ref", .str "#/label")]) = .ok (.object ⟨[("tag", .plain .string)], []⟩) := by
    show expand _ _ _ true "#/label" = _
    rw [expand, dif_pos (by decide)]
    simp only [resolve_label]
    show expand _ _ _ true "#/tag" = _
    rw [htag]
  have hfield : ∀ name, partWith { root := labels } ["#/label", "#/tag"] {} (fieldSchema name)
      = .ok (.object ⟨[(name, .plain .string)], []⟩) := fun name => compileWith_fieldSchema _ _ name
  rw [compile_withParts_nil]
  show ((compileParts _ ["#/label", "#/tag"] _ [fieldSchema "id", .obj [("$ref", .str "#/label")],
    fieldSchema "note"] >>= _) >>= _) = _
  rw [compileParts_eq_mapM, List.mapM_cons, hfield, List.mapM_cons, hlabel, List.mapM_cons, hfield,
    List.mapM_nil]
  rfl

/-- The label may stand for what it names, although that is a reference too. -/
theorem compile_inline_labels : Compiler.compile { root := labels }
    (withParts [] ([fieldSchema "id"] ++ [.obj [("$ref", .str "#/tag")]] ++ [fieldSchema "note"]))
    {} = .ok labelled :=
  compile_inline resolve_label compile_label

end ZodGen.Schema
