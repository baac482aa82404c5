import ZodGen.Proofs.Calls

/-!
# What a compiler keeps between schemas

Work with the stack ends, and leaves the stack as it found it, whether it fails or not (`Yields`).
Its outcome is the one that the references not on the stack give, so a compiler that has compiled
any schemas is as good as a new one (`compileAll_eq_start`).

The proof follows the compiler. Between two replacements the schema gets smaller, and a replacement
puts a reference on the stack that was not there, which leaves one reference less to replace.
-/

namespace ZodGen.Schema

namespace Worker

open Work

variable {R : String → Prop} {w : Worker}

/-- Every call is answered. A replacement puts a reference on the stack that was not there, so one
less may be replaced, and the other calls are for something smaller. -/
theorem yields_perform (h : Reference.Closed R w.compiler.root) (pending stack : List String)
    (hp : ∀ r, R r → (r ∈ pending ↔ r ∉ stack)) (call : Call) (hcall : ∀ r ∈ call.refs, R r) :
    Yields (w.perform call) stack (call.outcome w pending) := by
  rw [perform_eq_step]
  match call, hcall with
  | .compile schema, hcall =>
    refine yields_step_compile schema fun inner hin => ?_
    exact yields_perform h pending stack hp inner fun r hr => hcall r (hin.2 hr)
  | .expand follow r, hcall =>
    have hr : R r := hcall r List.mem_cons_self
    by_cases hm : r ∈ pending
    · have hstack := (hp r hr).1 hm
      have hp' : ∀ s, R s → (s ∈ Reference.others r pending ↔ s ∉ r :: stack) := by
        intro s hs
        rw [Reference.mem_others, hp s hs, List.mem_cons, not_or, and_comm]
      rw [Call.outcome_expand_of_mem hm]
      rcases hres : Reference.resolve w.compiler.root r with e | target
      · exact yields_step_unresolved hstack hres
      · refine yields_step_target hstack hres ?_
        exact yields_perform h _ _ hp' (.ofTarget follow target) fun s hs =>
          h r target hr hres s (Call.refs_ofTarget_subset follow target hs)
    · rw [Call.outcome_expand_of_notMem hm]
      exact yields_step_circular (not_not.1 fun hs => hm ((hp r hr).2 hs))
termination_by (pending.length, call.size)
decreasing_by
  · exact Prod.Lex.right _ hin.1
  · exact Prod.Lex.left _ _ (Reference.length_others_lt hm)

theorem closed_append_refs (rs : List String) (root : Value) :
    Reference.Closed (· ∈ rs ++ root.refs) root :=
  fun _ _ _ hv _ hs => List.mem_append_right _ (Reference.refs_subset_of_resolve hv hs)

theorem yields_compiler (c : Compiler) (schema : Value) (o : Options) :
    Yields (Worker.compile ⟨c, o⟩ schema) [] (c.compile schema o) := by
  refine yields_perform (closed_append_refs _ _) _ _ (fun r hr => ?_) (.compile schema)
    fun r hr => List.mem_append_left _ hr
  exact ⟨fun _ => List.not_mem_nil, fun _ => hr⟩

end Worker

namespace Session

theorem compile_start (c : Compiler) (schema : Value) (o : Options) :
    (start c).compile schema o = some (c.compile schema o, start c) := by
  rw [compile, show (Worker.compile ⟨(start c).compiler, o⟩ schema).run.run (start c).inlining
    = some (c.compile schema o, []) from Worker.yields_compiler c schema o]
  rfl

/-- Jobs done one after another do not disturb each other: each starts as the first did. -/
theorem compileAll_start (c : Compiler) : ∀ jobs : List (Value × Options),
    (start c).compileAll jobs = some (jobs.map fun job => (c.compile job.1 job.2, start c))
  | [] => rfl
  | (schema, o) :: jobs => by
    rw [compileAll, compile_start]
    show (start c).compileAll jobs >>= _ = _
    rw [compileAll_start c jobs]
    rfl

/-- A compiler carries nothing from one schema to the next. Whatever schemas it is given, it comes
to an end with each of them, whether it compiles or not. It replaces no reference any more then, and
has given the outcome that a new compiler gives. -/
theorem compileAll_eq_start (c : Compiler) (jobs : List (Value × Options)) :
    ∃ results, (start c).compileAll jobs = some results
      ∧ List.Forall₂ (fun job result => result.2.inlining = []
        ∧ (start c).compile job.1 job.2 = some result) jobs results := by
  refine ⟨_, compileAll_start c jobs, ?_⟩
  rw [List.forall₂_map_right_iff, List.forall₂_same]
  exact fun job _ => ⟨rfl, compile_start c job.1 job.2⟩

end Session

end ZodGen.Schema
