import Mathlib.Data.Finset.SDiff
import Mathlib.Data.Finset.Card
import Mathlib.Data.List.Nodup
import Mathlib.Logic.Relation
import ZodGen.Proofs.Session

/-!
# Why compiling a schema ends

A target may be larger than the schema that refers to it, and may contain that schema, so the size
of schemas alone says nothing about how deep a compiler gets. Here every call comes with the stack
that it finds. The references on the stack are all different and all stand in the document or in the
given schema (`Frame.Sound`), and a call that another one makes has fewer of them left, or as many
and less of a schema before it (`Sound.measure_lt`).

That one call makes another is said of the compiler itself: if the second had no answer, the first
would have none (`Worker.Makes`).
-/

namespace ZodGen.Schema

open Relation (ReflTransGen TransGen)

/-- A call with the stack that it finds. -/
@[ext]
structure Frame where
  stack : List String
  call : Call

namespace Worker

open Work

variable {w : Worker} {x y : Frame}

open Classical in
/-- The compiler, except that one call never comes to an end. -/
noncomputable def without (w : Worker) (y : Frame) (call : Call) : Work Validator :=
  ExceptT.mk fun stack => if Frame.mk stack call = y then none else (w.perform call).run.run stack

/-- A call makes another one: without an answer to the second there is none to the first. -/
def Makes (w : Worker) (x y : Frame) : Prop :=
  (w.step (w.without y) x.call).run.run x.stack = none

theorem run_without_self (y : Frame) : (w.without y y.call).run.run y.stack = none :=
  if_pos rfl

theorem run_without_of_ne {stack : List String} {call : Call} (h : Frame.mk stack call ≠ y) :
    (w.without y call).run.run stack = (w.perform call).run.run stack :=
  if_neg h

/-- Work that comes to an end although a call does not has not made the call. -/
theorem not_makes_of_yields {out : Outcome Validator}
    (h : Yields (w.step (w.without y) x.call) x.stack out) : ¬ w.Makes x y := by
  unfold Makes
  rw [show (w.step (w.without y) x.call).run.run x.stack = some (out, x.stack) from h]
  simp

/-! ## The calls that a call makes -/

theorem mem_unused_iff {refs stack : List String} {r : String} (hr : r ∈ refs) :
    r ∈ refs.filter (· ∉ stack) ↔ r ∉ stack := by
  simp [hr]

/-- Every call is answered, whatever stack it finds. -/
theorem exists_yields (w : Worker) (stack : List String) (call : Call) :
    ∃ out, Yields (w.perform call) stack out :=
  ⟨_, yields_perform (closed_append_refs call.refs _) _ stack (fun _ => mem_unused_iff) call
    fun _ hr => List.mem_append_left _ hr⟩

/-- The calls of a schema are made on its own stack, for what stands inside it. -/
theorem inside_of_makes {stack : List String} {schema : Value}
    (h : w.Makes ⟨stack, .compile schema⟩ y) : y.stack = stack ∧ y.call.Inside schema := by
  -- A call that is not one of these may go unanswered: the schema is compiled all the same.
  by_contra hnot
  have hanswered : ∀ call : Call, call.Inside schema → Yields (w.without y call) stack
      (call.outcome w ((schema.refs ++ w.compiler.root.refs).filter (· ∉ stack))) := by
    intro call hcall
    have hne : Frame.mk stack call ≠ y := by
      rintro rfl
      exact hnot ⟨rfl, hcall⟩
    unfold Yields
    rw [run_without_of_ne hne]
    exact yields_perform (closed_append_refs _ _) _ stack (fun _ => mem_unused_iff) call
      fun r hr => List.mem_append_left _ (hcall.2 hr)
  exact not_makes_of_yields (yields_step_compile schema hanswered) h

/-- A schema that is a reference, but not to a schema component, makes the call to replace it. -/
theorem makes_of_ref? (stack : List String) {schema : Value} {r : String}
    (hr : schema.ref? = some r) (hname : Reference.schemaName? r = none) :
    w.Makes ⟨stack, .compile schema⟩ ⟨stack, .expand false r⟩ := by
  unfold Makes
  rw [step, hr]
  simp only [hname, Option.isSome_none, Bool.false_eq_true, if_false]
  exact run_without_self _

/-- To replace a reference is to make the call for its target, with the reference on the stack. If
it is there already or leads nowhere, no call is made. -/
theorem makes_expand_iff {stack : List String} {follow : Bool} {r : String} :
    w.Makes ⟨stack, .expand follow r⟩ y ↔ r ∉ stack ∧ ∃ target,
      Reference.resolve w.compiler.root r = .ok target
        ∧ y = ⟨r :: stack, .ofTarget follow target⟩ := by
  by_cases hr : r ∈ stack
  · exact iff_of_false (not_makes_of_yields (yields_step_circular hr)) fun h => h.1 hr
  rcases hres : Reference.resolve w.compiler.root r with e | target
  · refine iff_of_false (not_makes_of_yields (yields_step_unresolved hr hres)) ?_
    rintro ⟨-, target, ht, -⟩
    cases ht
  · refine ⟨fun h => ⟨hr, target, rfl, ?_⟩, ?_⟩
    · by_contra hne
      obtain ⟨out, hout⟩ := exists_yields w (r :: stack) (.ofTarget follow target)
      have hanswered : Yields (w.without y (.ofTarget follow target)) (r :: stack) out := by
        unfold Yields
        rw [run_without_of_ne (Ne.symm hne)]
        exact hout
      exact not_makes_of_yields (yields_step_target hr hres hanswered) h
    · rintro ⟨-, target', ht, rfl⟩
      cases ht
      unfold Makes
      rw [run_step_target hr hres, run_without_self ⟨r :: stack, .ofTarget follow target⟩]
      rfl

end Worker

/-! ## The stack of a call -/

namespace Frame

/-- The stack holds no reference twice, and like the call itself it knows only these references. -/
structure Sound (refs : Finset String) (x : Frame) : Prop where
  nodup : x.stack.Nodup
  within : ∀ r ∈ x.stack, r ∈ refs
  known : ∀ r ∈ x.call.refs, r ∈ refs

/-- How many references are left to replace, and then how much of a schema is left to compile. -/
noncomputable def measure (refs : Finset String) (x : Frame) : ℕ × ℕ :=
  ((refs \ x.stack.toFinset).card, x.call.size)

variable {refs : Finset String} {w : Worker} {x y : Frame}

/-- A stack repeats no reference, so it is no longer than there are references. -/
theorem Sound.length_le (hx : x.Sound refs) : x.stack.length ≤ refs.card := by
  rw [← List.toFinset_card_of_nodup hx.nodup]
  refine Finset.card_le_card fun r hr => ?_
  exact hx.within r (List.mem_toFinset.1 hr)

theorem Sound.makes (hx : x.Sound refs) (h : Reference.Closed (· ∈ refs) w.compiler.root)
    (hy : w.Makes x y) : y.Sound refs := by
  obtain ⟨stack, schema | ⟨follow, r⟩⟩ := x
  · obtain ⟨rfl, hin⟩ := Worker.inside_of_makes hy
    exact ⟨hx.nodup, hx.within, fun r hr => hx.known r (hin.2 hr)⟩
  · obtain ⟨hr, target, hres, rfl⟩ := Worker.makes_expand_iff.1 hy
    have hknown : r ∈ refs := hx.known r List.mem_cons_self
    refine ⟨List.nodup_cons.2 ⟨hr, hx.nodup⟩, ?_, fun s hs => ?_⟩
    · exact List.forall_mem_cons.2 ⟨hknown, hx.within⟩
    · exact h r target hknown hres s (Call.refs_ofTarget_subset follow target hs)

/-- A call that another one makes has less before it. -/
theorem Sound.measure_lt (hx : x.Sound refs) (hy : w.Makes x y) :
    Prod.Lex (· < ·) (· < ·) (y.measure refs) (x.measure refs) := by
  obtain ⟨stack, schema | ⟨follow, r⟩⟩ := x
  · obtain ⟨rfl, hin⟩ := Worker.inside_of_makes hy
    exact .right _ hin.1
  · obtain ⟨hr, target, hres, rfl⟩ := Worker.makes_expand_iff.1 hy
    refine .left _ _ (Finset.card_lt_card ?_)
    have hknown : r ∈ refs := hx.known r List.mem_cons_self
    rw [List.toFinset_cons, Finset.sdiff_insert]
    exact Finset.erase_ssubset (by simp [hknown, hr])

theorem Sound.of_reflTransGen (hx : x.Sound refs)
    (h : Reference.Closed (· ∈ refs) w.compiler.root) (hy : ReflTransGen w.Makes x y) :
    y.Sound refs := by
  induction hy with
  | refl => exact hx
  | tail _ hmakes ih => exact ih.makes h hmakes

/-- Calls made by calls have a smaller measure, so no call comes back to itself. -/
theorem Sound.measure_lt_of_transGen (hx : x.Sound refs)
    (h : Reference.Closed (· ∈ refs) w.compiler.root) (hy : TransGen w.Makes x y) :
    Prod.Lex (· < ·) (· < ·) (y.measure refs) (x.measure refs) := by
  induction hy with
  | single hmakes => exact hx.measure_lt hmakes
  | tail hxy hmakes ih =>
    exact Prod.Lex.trans ((hx.of_reflTransGen h hxy.to_reflTransGen).measure_lt hmakes) ih

/-- No sound call goes on making calls without end. -/
theorem Sound.acc (h : Reference.Closed (· ∈ refs) w.compiler.root) (hx : x.Sound refs) :
    Acc (fun y x => w.Makes x y) x := by
  have hwf := InvImage.wf (measure refs) (WellFounded.prod_lex Nat.lt_wfRel.wf Nat.lt_wfRel.wf)
  induction x using hwf.induction with
  | h x ih => exact ⟨x, fun y hy => ih y (hx.measure_lt hy) (hx.makes h hy)⟩

end Frame

/-! ## Compiling a schema -/

/-- The references in a schema and in the document. -/
def Compiler.refs (c : Compiler) (schema : Value) : Finset String :=
  (schema.refs ++ c.root.refs).toFinset

theorem Compiler.sound_start (c : Compiler) (schema : Value) :
    Frame.Sound (c.refs schema) ⟨[], .compile schema⟩ :=
  ⟨List.nodup_nil, by simp, fun r hr => by simp [refs, show r ∈ schema.refs from hr]⟩

theorem Compiler.closed_refs (c : Compiler) (schema : Value) :
    Reference.Closed (· ∈ c.refs schema) c.root := by
  simpa only [refs, List.mem_toFinset] using Worker.closed_append_refs schema.refs c.root

/-- Compiling a schema ends, however the references of the document loop. Among the calls that it
makes, the stack never holds a reference twice and holds only references of the document and the
schema, so no more of them are nested than there are. From each call to the calls inside it, the
number of these references that are not on the stack gets smaller, or it stays and the schema gets
smaller. -/
theorem compile_descends (c : Compiler) (schema : Value) (o : Options) :
    (∃ out, (Session.start c).compile schema o = some (out, Session.start c))
    ∧ Acc (fun y x => Worker.Makes ⟨c, o⟩ x y) ⟨[], .compile schema⟩
    ∧ ∀ x, ReflTransGen (Worker.Makes ⟨c, o⟩) ⟨[], .compile schema⟩ x →
      x.stack.Nodup ∧ (∀ r ∈ x.stack, r ∈ schema.refs ∨ r ∈ c.root.refs)
      ∧ x.stack.length ≤ (c.refs schema).card
      ∧ ∀ y, TransGen (Worker.Makes ⟨c, o⟩) x y →
        Prod.Lex (· < ·) (· < ·) (y.measure (c.refs schema)) (x.measure (c.refs schema)) := by
  have hstart := c.sound_start schema
  have hclosed := c.closed_refs schema
  refine ⟨⟨_, Session.compile_start c schema o⟩, hstart.acc hclosed, fun x hx => ?_⟩
  have hsound := hstart.of_reflTransGen hclosed hx
  refine ⟨hsound.nodup, fun r hr => ?_, hsound.length_le, fun y hy => ?_⟩
  · simpa [Compiler.refs] using hsound.within r hr
  · exact hsound.measure_lt_of_transGen hclosed hy

/-- A reference to a rung of a ladder. -/
def rungReference : Value := .obj [("$ref", .str "#/rung")]

/-- A rung, which leads to the next one. -/
def rung : Value := .obj [("properties", .obj [("next", rungReference)])]

/-- A document in which every rung is the same. -/
def ladder : Value := .obj [("rung", rung)]

/-- From a reference a compiler gets to a larger schema, but with one reference less to replace. -/
theorem compile_descends_ladder :
    TransGen (Worker.Makes ⟨{ root := ladder }, {}⟩) ⟨[], .compile rungReference⟩
        ⟨["#/rung"], .compile rung⟩
      ∧ sizeOf rungReference < sizeOf rung
      ∧ Prod.Lex (· < ·) (· < ·)
        (Frame.measure (Compiler.refs { root := ladder } rungReference) ⟨["#/rung"], .compile rung⟩)
        (Frame.measure (Compiler.refs { root := ladder } rungReference)
          ⟨[], .compile rungReference⟩) := by
  have hresolve : Reference.resolve ladder "#/rung" = .ok rung :=
    Reference.resolve_eq_ok.2 ⟨["rung"], by decide +kernel, rfl⟩
  have hmakes : TransGen (Worker.Makes ⟨{ root := ladder }, {}⟩) ⟨[], .compile rungReference⟩
      ⟨["#/rung"], .compile rung⟩ :=
    .tail (.single (Worker.makes_of_ref? [] rfl (by decide +kernel)))
      (Worker.makes_expand_iff.2 ⟨by simp, rung, hresolve, rfl⟩)
  refine ⟨hmakes, ?_, ?_⟩
  · simp [rung, rungReference]
    omega
  · exact ((compile_descends _ _ _).2.2 _ .refl).2.2.2 _ hmakes

end ZodGen.Schema
