import Mathlib.Data.List.Forall2
import ZodGen.Proofs.CutText
import ZodGen.Proofs.Liveness
import ZodGen.Proofs.Outcome

/-!
# Pruning a pruned script

A cut can bring two statements together that are then read as one, so a pruned script may lose more
when it is pruned again (`prune_prune_joined`). When the text that is left is read with the live
bindings of the script and their uses, all of its bindings are live, and it stays as it is
(`prune_prune`).
-/

namespace ZodGen.Script

namespace Liveness

/-- The names of the bindings that are live. -/
def liveNames (l : Liveness) : List String :=
  (l.bindings.filter (·.declares l.reached)).flatMap (·.names)

/-- What is left of a script: its live bindings in order. They still have their names, and of the
live names what was a seed is one, and what a binding used it uses. -/
structure Leaves (l l' : Liveness) : Prop where
  seeds : ∀ n ∈ l.liveNames, n ∈ l.seeds → n ∈ l'.seeds
  bindings : List.Forall₂ (fun b b' => b.names ⊆ b'.names
      ∧ ∀ n ∈ l.liveNames, n ∈ b.references → n ∈ b'.references)
    (l.bindings.filter (·.declares l.reached)) l'.bindings

section Leaves

variable {l l' : Liveness}

theorem mem_liveNames {b : Binding} (hb : b ∈ l.bindings) {n : String} (hn : n ∈ b.names)
    (hreached : n ∈ l.reached) : n ∈ l.liveNames :=
  List.mem_flatMap.2 ⟨b, List.mem_filter.2 ⟨hb, Binding.declares_iff.2 ⟨n, hn, hreached⟩⟩, hn⟩

/-- Live names that are reached are reached in what is left. -/
theorem Leaves.mem_reached (h : l.Leaves l') {n : String} (hn : n ∈ l.liveNames)
    (hreached : n ∈ l.reached) : n ∈ l'.reached := by
  -- Reached names that are not live are of no binding, so they lead to nothing.
  have hall : ∀ k ∈ l.reached, k ∈ l.reached ∧ (k ∈ l.liveNames → k ∈ l'.reached) := by
    refine reach_subset _ _ (fun k hk => ⟨subset_reach _ _ hk, fun hlive =>
      subset_reach _ _ (h.seeds k hlive hk)⟩) ?_
    rintro b hb ⟨m, hm, hreached, hreached'⟩ k hk
    have hlive : b.declares l.reached = true := Binding.declares_iff.2 ⟨m, hm, hreached⟩
    refine ⟨references_subset_reach _ _ hb hlive hk, fun hklive => ?_⟩
    obtain ⟨b', hb', hnames, hrefs⟩ :=
      Outcome.exists_right_of_forall₂ h.bindings (List.mem_filter.2 ⟨hb, hlive⟩)
    have hlive' : b'.declares l'.reached = true :=
      Binding.declares_iff.2 ⟨m, hnames hm, hreached' (mem_liveNames hb hm hreached)⟩
    exact references_subset_reach _ _ hb' hlive' (hrefs k hklive hk)
  exact (hall n hreached).2 hn

/-- What is left is live as a whole. -/
theorem Leaves.live (h : l.Leaves l') {b' : Binding} (hb' : b' ∈ l'.bindings) :
    b'.declares l'.reached = true := by
  obtain ⟨b, hb, hnames, -⟩ := Outcome.exists_right_of_forall₂ h.bindings.flip hb'
  obtain ⟨hb, hlive⟩ := List.mem_filter.1 hb
  obtain ⟨n, hn, hreached⟩ := Binding.declares_iff.1 hlive
  exact Binding.declares_iff.2
    ⟨n, hnames hn, h.mem_reached (mem_liveNames hb hn hreached) hreached⟩

end Leaves

end Liveness

/-- A script whose bindings are all live is not edited. -/
theorem edits_eq_nil {p : Program}
    (h : ∀ b ∈ (Liveness.ofProgram p).bindings, b.declares (Liveness.ofProgram p).reached = true)
    (source : List Char) : edits source p = [] := by
  refine List.filterMap_eq_nil_iff.2 fun ⟨statement, i⟩ _ => ?_
  cases statement with
  | none => rfl
  | some d =>
    have hall : ((Liveness.ofProgram p).flags i).all id = true := by
      refine List.all_eq_true.2 fun flag hflag => ?_
      obtain ⟨b, hb, rfl⟩ := List.mem_map.1 hflag
      exact h b (List.mem_filter.1 hb).1
    show editOf? source d ((Liveness.ofProgram p).flags i) = none
    rw [editOf?, if_pos hall]

/-- The text that is left of a script is read as what is left of it. -/
def RereadsAsLeft (source : String) : Prop :=
  ∃ p text q, parse source = .ok p ∧ prune source = .ok text ∧ parse text = .ok q
    ∧ (Liveness.ofProgram p).Leaves (Liveness.ofProgram q)

/-- Pruning what is left of a script gives it back, when it is read as what is left. -/
theorem prune_prune {source : String} (h : RereadsAsLeft source) :
    (prune source >>= prune) = prune source := by
  obtain ⟨p, text, q, -, htext, hq, hleaves⟩ := h
  rw [htext, Outcome.ok_bind, prune, hq, Outcome.ok_bind,
    edits_eq_nil fun b hb => hleaves.live hb, applyEdits, String.ofList_toList]

/-! ## Two scripts -/

deriving instance DecidableEq for Symbol

namespace Symbol

/-- Symbols that are declared in the order of their places need not be sorted. -/
theorem ofItems_of_pairwise {items : List Item}
    (h : (declared items).Pairwise fun a b => a.span.start ≤ b.span.start) :
    ofItems items = declared items :=
  List.mergeSort_of_pairwise (h.imp fun h => by simpa using h)

end Symbol

/-- What a script is read as, as far as its bindings go. -/
structure Reading where
  statements : List (Option Declaration)
  symbols : List Symbol

namespace Reading

variable {source : String} {r : Reading}

/-- The bindings of statements with these symbols. -/
def liveness (r : Reading) : Liveness :=
  let declarators := Liveness.declarators r.statements
  let symbols := r.symbols.map (Liveness.place (declarators.map (·.2.2)))
  { seeds := Liveness.usedIn none symbols
    bindings := declarators.map fun (statement, declarator, span) =>
      { statement, declarator, span, names := Liveness.declaredIn span symbols,
        references := Liveness.usedIn (some span) symbols } }

/-- A script that is read so. -/
structure Of (source : String) (r : Reading) : Prop where
  read : (parse source).map (fun p => (p.statements, Symbol.declared p.items))
    = .ok (r.statements, r.symbols)
  sorted : r.symbols.Pairwise fun a b => a.span.start ≤ b.span.start

theorem Of.exists_parse (h : r.Of source) : ∃ p, parse source = .ok p
    ∧ p.statements = r.statements ∧ Liveness.ofProgram p = r.liveness := by
  have hread := h.read
  rcases hp : parse source with e | p <;> rw [hp] at hread
  · cases hread
  · have heq := Prod.mk.inj (Except.ok.inj hread)
    refine ⟨p, rfl, heq.1, ?_⟩
    have hsymbols := Symbol.ofItems_of_pairwise (heq.2 ▸ h.sorted)
    rw [Liveness.ofProgram, hsymbols, heq.1, heq.2]
    rfl

/-- What pruning leaves of a script, by the names that are reached. -/
theorem Of.prune_eq (h : r.Of source) {names : List String}
    (hreached : r.liveness.reached = names) :
    prune source = .ok (String.ofList (applyEdits 0 source.toList
      (r.statements.zipIdx.filterMap fun (statement, i) => statement.bind fun d =>
        editOf? source.toList d ((r.liveness.bindings.filter (·.statement == i)).map
          (·.declares names))))) := by
  obtain ⟨p, hp, hstatements, hl⟩ := h.exists_parse
  rw [prune, hp, Outcome.ok_bind, edits, hl, hstatements, hreached]

end Reading

section Twice

/-- Of two declarators the second is not used. -/
def twoDeclarators : Reading :=
  ⟨[some ⟨.let_, ⟨0, 17⟩, [⟨4, 9⟩, ⟨11, 16⟩]⟩, none],
   [⟨"a", ⟨4, 5⟩, .ofValue, [⟨15, 16⟩, ⟨22, 23⟩]⟩, ⟨"b", ⟨11, 12⟩, .ofValue, []⟩]⟩

def oneDeclarator : Reading :=
  ⟨[some ⟨.let_, ⟨0, 10⟩, [⟨4, 9⟩]⟩, none], [⟨"a", ⟨4, 5⟩, .ofValue, [⟨15, 16⟩]⟩]⟩

theorem twoDeclarators_of : twoDeclarators.Of "let a = 1, b = a;\nlog(a)" :=
  ⟨by decide +kernel, by decide⟩

theorem reached_twoDeclarators : twoDeclarators.liveness.reached = ["a"] := by
  rw [Liveness.reached, Liveness.reach, dif_neg (by decide)]
  show ["a"] ++ Liveness.reach [] _ = _
  rw [Liveness.reach, dif_pos (by decide)]
  rfl

theorem rereadsAsLeft_twoDeclarators : RereadsAsLeft "let a = 1, b = a;\nlog(a)" := by
  have hq : oneDeclarator.Of "let a = 1;\nlog(a)" := ⟨by decide +kernel, by decide⟩
  have hprune := twoDeclarators_of.prune_eq reached_twoDeclarators
  obtain ⟨p, hp, -, hl⟩ := twoDeclarators_of.exists_parse
  obtain ⟨q, hq, -, hl'⟩ := hq.exists_parse
  refine ⟨p, _, q, hp, ?_, hq, ?_⟩
  · rw [hprune]
    decide +kernel
  · rw [hl, hl']
    refine ⟨?_, ?_⟩ <;> simp only [Liveness.liveNames, reached_twoDeclarators]
    · decide
    · decide

theorem prune_prune_twoDeclarators : RereadsAsLeft "let a = 1, b = a;\nlog(a)"
    ∧ (prune "let a = 1, b = a;\nlog(a)" >>= prune) = prune "let a = 1, b = a;\nlog(a)" :=
  ⟨rereadsAsLeft_twoDeclarators, prune_prune rereadsAsLeft_twoDeclarators⟩

end Twice

section Joined

/-- A use that a declaration stands in front of. -/
def joined : Reading :=
  ⟨[some ⟨.const, ⟨0, 11⟩, [⟨6, 11⟩]⟩, some ⟨.var, ⟨12, 22⟩, [⟨16, 21⟩]⟩, none],
   [⟨"a", ⟨6, 7⟩, .ofValue, [⟨24, 25⟩]⟩, ⟨"x", ⟨16, 17⟩, .ofValue, []⟩]⟩

/-- Without the declaration, the use is an argument of a call. -/
def call : Reading :=
  ⟨[some ⟨.const, ⟨0, 15⟩, [⟨6, 15⟩]⟩], [⟨"a", ⟨6, 7⟩, .ofValue, [⟨13, 14⟩]⟩]⟩

theorem reached_joined : joined.liveness.reached = ["a"] := by
  rw [Liveness.reached, Liveness.reach, dif_neg (by decide)]
  show ["a"] ++ Liveness.reach [] _ = _
  rw [Liveness.reach, dif_pos (by decide)]
  rfl

theorem reached_call : call.liveness.reached = [] := by
  rw [Liveness.reached, Liveness.reach, dif_pos (by decide)]
  rfl

/-- A text that is one declaration is cut as a whole. -/
theorem removalRange_all (cs : List Char) :
    removalRange cs ⟨0, Text.byteLength cs⟩ = (0, Text.byteLength cs) := by
  have hbefore : Text.before cs 0 = [] := Text.before_append [] cs
  have hafter : Text.after cs (Text.byteLength cs) = [] := by
    simpa using Text.after_append cs []
  have hblank : blankLines [] = 0 := by rw [blankLines]
  unfold removalRange
  simp only [hbefore, hafter, firstLine, hblank]
  rfl

theorem prune_prune_joined : prune "const a = 0\nvar x = 2; (a)" = .ok "const a = 0\n(a)"
    ∧ prune "const a = 0\n(a)" = .ok "" := by
  have hjoined : joined.Of "const a = 0\nvar x = 2; (a)" := ⟨by decide +kernel, by decide⟩
  have hcall : call.Of "const a = 0\n(a)" := ⟨by decide +kernel, by decide⟩
  constructor
  · rw [hjoined.prune_eq reached_joined]
    decide +kernel
  · have hrange : removalRange "const a = 0\n(a)".toList ⟨0, 15⟩ = (0, 15) := removalRange_all _
    rw [hcall.prune_eq reached_call]
    show Except.ok (String.ofList (applyEdits 0 _
      [⟨(removalRange "const a = 0\n(a)".toList ⟨0, 15⟩).1,
        (removalRange "const a = 0\n(a)".toList ⟨0, 15⟩).2, []⟩])) = _
    rw [hrange]
    decide +kernel

end Joined

end ZodGen.Script
