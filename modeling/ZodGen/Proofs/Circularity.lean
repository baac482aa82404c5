import Mathlib.Logic.Relation
import ZodGen.Proofs.Causes
import ZodGen.Proofs.Session

/-!
# Circular references

A compiler gives up on a reference that it is replacing already. That is never a false alarm: the
reference does lead back to itself in the document (`leadsBack_of_circular`).

Every reference that is being replaced leads, in one step or several, to all references of the
schema at hand. A target is compiled only while its reference is being replaced, so this holds for a
target when it holds where the target is referred to, and the first replacement starts it. How often
a reference has been replaced before does not matter.
-/

namespace ZodGen

open Outcome
open Relation (TransGen)

/-- A reference leads to those that stand in the value it resolves to. -/
def Reference.Leads (root : Value) (r s : String) : Prop :=
  ∃ v, resolve root r = .ok v ∧ s ∈ v.refs

namespace Schema

/-- If the error is that a reference is circular, the reference leads back to itself. -/
def LoopsIfCircular (root : Value) (e : Error) : Prop :=
  e.cause = .circularReference → TransGen (Reference.Leads root) e.detail e.detail

variable {R : String → Prop} {w : Worker}

theorem loopsIfCircular_of_ne {root : Value} {e : Error} (h : e.cause ≠ .circularReference) :
    LoopsIfCircular root e :=
  fun he => (h he).elim

/-- The references that are not pending are those being replaced. They lead to every reference of
the call, so a call to replace one of them is circular indeed. -/
theorem errs_outcome (h : Reference.Closed R w.compiler.root)
    (hn : ∀ r, Errs (LoopsIfCircular w.compiler.root) (w.compiler.bindingName r))
    (pending : List String) (call : Call) (hcall : ∀ r ∈ call.refs, R r)
    (hused : ∀ s, R s → s ∉ pending → ∀ r ∈ call.refs,
      TransGen (Reference.Leads w.compiler.root) s r) :
    Errs (LoopsIfCircular w.compiler.root) (call.outcome w pending) := by
  match call, hcall, hused with
  | .compile schema, hcall, hused =>
    have ih : ∀ inner : Call, inner.Inside schema →
        Errs (LoopsIfCircular w.compiler.root) (inner.outcome w pending) := fun inner hin =>
      errs_outcome h hn pending inner (fun r hr => hcall r (hin.2 hr))
        fun s hs hp r hr => hused s hs hp r (hin.2 hr)
    refine errs_compileWith (fun cause hcause _ => ?_) schema (fun r _ => hn r) (fun r hr => ?_)
      (fun s hs => ?_) fun s hs r hr => ?_
    · exact loopsIfCircular_of_ne (by rintro rfl; simp [ruleCauses] at hcause)
    · exact ih (.expand false r) (Call.inside_expand (Value.mem_refs_of_ref? hr) false)
    · exact ih (.compile s) (Rule.inside_of_mem_schemas hs)
    · exact ih (.expand true r) (Call.inside_expand
        ((Rule.inside_of_mem_schemas hs).2 (Value.mem_refs_of_ref? hr)) true)
  | .expand follow r, hcall, hused =>
    have hr : R r := hcall r List.mem_cons_self
    by_cases hm : r ∈ pending
    · rw [Call.outcome_expand_of_mem hm]
      have hresolve : Errs (LoopsIfCircular w.compiler.root)
          (Reference.resolve w.compiler.root r) :=
        Reference.errs_resolve (fun _ => loopsIfCircular_of_ne (by simp))
          (fun _ => loopsIfCircular_of_ne (by simp)) _ _
      refine hresolve.bind_of_ok fun target hres => ?_
      have ht : ∀ s ∈ (Call.ofTarget follow target).refs, s ∈ target.refs :=
        fun s hs => Call.refs_ofTarget_subset follow target hs
      refine errs_outcome h hn _ _ (fun s hs => h r target hr hres s (ht s hs)) ?_
      intro s hs hnot q hq
      -- Now `r` is being replaced too, and what leads to `r` leads on to the target's references.
      have hleads : Reference.Leads w.compiler.root r q := ⟨target, hres, ht q hq⟩
      by_cases hsr : s = r
      · exact hsr ▸ .single hleads
      · have hp : s ∉ pending := fun hp => hnot (Reference.mem_others.2 ⟨hp, hsr⟩)
        exact (hused s hs hp r List.mem_cons_self).tail hleads
    · rw [Call.outcome_expand_of_notMem hm]
      exact errs_fail fun _ => hused r hr hm r List.mem_cons_self
termination_by (pending.length, call.size)
decreasing_by
  · exact Prod.Lex.right _ hin.1
  · exact Prod.Lex.left _ _ (Reference.length_others_lt hm)

/-- At the start no reference is being replaced. -/
theorem Compiler.errs_compile (c : Compiler)
    (hn : ∀ r, Errs (LoopsIfCircular c.root) (c.bindingName r)) (schema : Value) (o : Options) :
    Errs (LoopsIfCircular c.root) (c.compile schema o) :=
  errs_outcome (w := ⟨c, o⟩) (Worker.closed_append_refs schema.refs c.root) hn _ (.compile schema)
    (fun _ hr => List.mem_append_left _ hr) fun _ hs hnot => (hnot hs).elim

/-- When a new compiler fails because a reference is circular, the reference leads back to itself by
references of the document. So it never fails for that where no reference does. -/
theorem leadsBack_of_circular (root schema : Value) (o : Options) :
    (∀ r after, (Session.start { root := root }).compile schema o
        = some (fail .circularReference r, after) → TransGen (Reference.Leads root) r r)
    ∧ ((∀ r, ¬ TransGen (Reference.Leads root) r r) → ∀ r after,
      (Session.start { root := root }).compile schema o
        ≠ some (fail .circularReference r, after)) := by
  have hback : ∀ r after, (Session.start { root := root }).compile schema o
      = some (fail .circularReference r, after) → TransGen (Reference.Leads root) r r := by
    intro r after h
    rw [Session.compile_start] at h
    have hfail : Compiler.compile { root := root } schema o = fail .circularReference r :=
      congrArg Prod.fst (Option.some.inj h)
    refine Compiler.errs_compile { root := root } (fun q => ?_) schema o _ hfail rfl
    intro e he
    exact loopsIfCircular_of_ne (BindingName.failsWith_ofReference
      (P := (· ≠ .circularReference)) (by simp) q e he)
  exact ⟨hback, fun hacyclic r after h => hacyclic r (hback r after h)⟩

/-- A schema with one part, which is a reference. -/
def reflection (r : String) : Value := .obj [("allOf", .arr [.obj [("$ref", .str r)]])]

/-- Two mirrors, each with the other one in it. -/
def mirrors : Value :=
  .obj [("left", reflection "#/right"), ("right", reflection "#/left")]

theorem compileWith_reflection (c : Compiler) (pending : List String) (o : Options) {r : String}
    {e : Error} (h : expand c pending o true r = .error e) :
    compileWith c pending o (reflection r) = .error e := by
  rw [compileWith_eq_lowerBy _ _ _ rfl]
  show ((compileParts _ _ _ [.obj [("$ref", .str r)]] >>= _) >>= _) = _
  rw [compileParts]
  show (((expand _ _ _ true r >>= _) >>= _) >>= _) = _
  rw [h]
  rfl

theorem expand_reflection (c : Compiler) (pending : List String) (o : Options) {r s : String}
    (hr : r ∈ pending) (hres : Reference.resolve c.root r = .ok (reflection s)) {e : Error}
    (h : expand c (Reference.others r pending) o true s = .error e) :
    expand c pending o true r = .error e := by
  rw [expand, dif_pos hr]
  simp only [hres]
  exact compileWith_reflection _ _ _ h

theorem compile_mirrors : Compiler.compile { root := mirrors } (reflection "#/left") {}
    = fail .circularReference "#/left" := by
  have hleft : Reference.resolve mirrors "#/left" = .ok (reflection "#/right") :=
    Reference.resolve_eq_ok.2 ⟨["left"], by decide +kernel, rfl⟩
  have hright : Reference.resolve mirrors "#/right" = .ok (reflection "#/left") :=
    Reference.resolve_eq_ok.2 ⟨["right"], by decide +kernel, rfl⟩
  rw [Compiler.compile]
  refine compileWith_reflection _ _ _ ?_
  refine expand_reflection _ _ _ (by decide) hleft ?_
  refine expand_reflection _ _ _ (by decide) hright ?_
  rw [expand, dif_neg (by decide)]
  rfl

/-- A document in which two parts of a schema are the same reference. -/
def twinParts : Value :=
  .obj [("base", .obj [("type", .str "object")]),
    ("twins", .obj [("allOf",
      .arr [.obj [("$ref", .str "#/base")], .obj [("$ref", .str "#/base")]])])]

theorem acyclic_twinParts (r : String) : ¬ TransGen (Reference.Leads twinParts) r r := by
  have hbase : Reference.resolve twinParts "#/base" = .ok (.obj [("type", .str "object")]) :=
    Reference.resolve_eq_ok.2 ⟨["base"], by decide +kernel, rfl⟩
  intro h
  obtain ⟨q, -, v, hv, hr⟩ := TransGen.tail'_iff.1 h
  obtain rfl : r = "#/base" := by
    have hmem : r ∈ twinParts.refs := Reference.refs_subset_of_resolve hv hr
    simpa [twinParts, Value.refs, Value.refsOfMembers, Value.refsOfItems] using hmem
  obtain ⟨s, ⟨v, hv, hs⟩, -⟩ := TransGen.head'_iff.1 h
  cases hbase.symm.trans hv
  simp [Value.refs, Value.refsOfMembers] at hs

/-- The mirrors are circular. The twins are not, although their part is replaced twice. -/
theorem leadsBack_of_circular_mirrors :
    (Session.start { root := mirrors }).compile (reflection "#/left") {}
        = some (fail .circularReference "#/left", Session.start { root := mirrors })
      ∧ TransGen (Reference.Leads mirrors) "#/left" "#/left"
      ∧ ∀ r after, (Session.start { root := twinParts }).compile (reflection "#/twins") {}
        ≠ some (fail .circularReference r, after) := by
  have hmirrors : (Session.start { root := mirrors }).compile (reflection "#/left") {}
      = some (fail .circularReference "#/left", Session.start { root := mirrors }) := by
    rw [Session.compile_start, compile_mirrors]
  exact ⟨hmirrors, (leadsBack_of_circular _ _ _).1 _ _ hmirrors,
    (leadsBack_of_circular _ _ _).2 acyclic_twinParts⟩

end Schema

end ZodGen
