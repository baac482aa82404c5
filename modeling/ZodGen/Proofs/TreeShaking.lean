import Mathlib.Data.List.Nodup
import ZodGen.Proofs.CutText
import ZodGen.Proofs.Liveness
import ZodGen.Proofs.ModuleText
import ZodGen.Proofs.Owners
import ZodGen.Proofs.ParserRuns

/-!
# Cutting the text of a module

The text of a module, read as one statement per section, loses exactly the sections of the
components that no operation leads to: what is left is the text of the module without them
(`prune_render`), and pruning that text again changes nothing (`prune_again_render`).

A use belongs to the section it stands in (`Reads.owner_of_within`), so the names that a binding has
and uses are those of its section (`Reads.mem_names`, `Reads.refers_of_mem_usedIn`). Then the live
bindings are those of live components (`declares_iff_live`), and the edits cut the other sections
(`edits_eq_cuts`).
-/

namespace ZodGen

open ZodGen.Module (Part spaced textOf)

namespace Script

open Text (byteLength)
open Liveness (declarators owner place usedIn declaredIn)

/-- A place in a range. -/
def Span.Within (s r : Span) : Prop := r.start ≤ s.start ∧ s.start ≤ s.stop ∧ s.stop ≤ r.stop

instance (s r : Span) : Decidable (s.Within r) :=
  inferInstanceAs (Decidable (_ ∧ _ ∧ _))

/-- A section of a module in the text, and the range in it that has its names: if the section may be
cut, its declarator. -/
structure Located where
  part : Part
  span : Span
  range : Span

/-- The statement of a section. -/
def Located.statement (x : Located) : Option Declaration :=
  x.part.binds.map fun _ => ⟨.const, x.span, [x.range]⟩

/-- The declarator of a section that may be cut. -/
def Located.declarator? (x : Located) : Option Span := x.part.binds.map fun _ => x.range

/-- Sections that stand one after another from an offset on, with an empty line between any two. -/
def StandFrom : Nat → List Located → Prop
  | _, [] => True
  | offset, x :: xs =>
    x.span = ⟨offset, offset + byteLength x.part.text.toList⟩ ∧ StandFrom (x.span.stop + 2) xs

/-- The script is read by sections: one statement for each, as long as the section. The names of the
script are declared in them, a section that may be cut declares its name alone, and what a section
uses of these names is `z` and the names in its reference nodes. -/
structure Reads (p : Program) (xs : List Located) : Prop where
  spans : StandFrom 0 xs
  ranges : ∀ x ∈ xs, x.range.Within x.span
  statements : p.statements = xs.map Located.statement
  homes : ∀ s ∈ Symbol.ofItems p.items, ∃ x ∈ xs, s.span.Within x.range
    ∧ ∀ name ∈ x.part.binds, s.name = name
  bound : ∀ x ∈ xs, ∀ name ∈ x.part.binds, ∃ s ∈ Symbol.ofItems p.items,
    s.name = name ∧ s.span.Within x.range
  users : ∀ s ∈ Symbol.ofItems p.items, ∀ u ∈ s.uses, ∃ x ∈ xs, u.Within x.range
    ∧ (s.name = "z" ∨ s.name ∈ x.part.refers)
  used : ∀ x ∈ xs, ∀ s ∈ Symbol.ofItems p.items, s.name ∈ x.part.refers →
    ∃ u ∈ s.uses, u.Within x.range

/-- The text of a module is read by the sections of the module. -/
structure ReadsModule (m : Module) (exported : Bool) (p : Program) (front : List Part)
    (last : Part) (xs : List Located) : Prop extends Reads p xs where
  parts : m.parts exported = .ok (front, last)
  located : xs.map Located.part = front ++ [last]

/-! ## Deciding how a script is read -/

section Decide

instance decidableStandFrom : ∀ (offset : Nat) (xs : List Located), Decidable (StandFrom offset xs)
  | _, [] => inferInstanceAs (Decidable True)
  | _, x :: xs =>
    have := decidableStandFrom (x.span.stop + 2) xs
    inferInstanceAs (Decidable (_ ∧ _))

/-- The order of the symbols does not matter, so it need not be found to decide this. -/
theorem reads_iff {p : Program} {xs : List Located} : Reads p xs ↔
    StandFrom 0 xs ∧ (∀ x ∈ xs, x.range.Within x.span)
      ∧ p.statements = xs.map Located.statement
      ∧ (∀ s ∈ Symbol.declared p.items, ∃ x ∈ xs, s.span.Within x.range
          ∧ ∀ name ∈ x.part.binds, s.name = name)
      ∧ (∀ x ∈ xs, ∀ name ∈ x.part.binds, ∃ s ∈ Symbol.declared p.items,
          s.name = name ∧ s.span.Within x.range)
      ∧ (∀ s ∈ Symbol.declared p.items, ∀ u ∈ s.uses, ∃ x ∈ xs, u.Within x.range
          ∧ (s.name = "z" ∨ s.name ∈ x.part.refers))
      ∧ ∀ x ∈ xs, ∀ s ∈ Symbol.declared p.items, s.name ∈ x.part.refers →
          ∃ u ∈ s.uses, u.Within x.range := by
  simp only [← Symbol.mem_ofItems]
  exact ⟨fun ⟨h₁, h₂, h₃, h₄, h₅, h₆, h₇⟩ => ⟨h₁, h₂, h₃, h₄, h₅, h₆, h₇⟩,
    fun ⟨h₁, h₂, h₃, h₄, h₅, h₆, h₇⟩ => ⟨h₁, h₂, h₃, h₄, h₅, h₆, h₇⟩⟩

instance (p : Program) (xs : List Located) : Decidable (Reads p xs) :=
  decidable_of_iff _ reads_iff.symm

end Decide

/-! ## Owners -/

section Owner

/-- The declarators of the sections that may be cut. -/
def cuttable (xs : List Located) : List Span := xs.filterMap Located.declarator?

theorem mem_cuttable {xs : List Located} {r : Span} (h : r ∈ cuttable xs) :
    ∃ x ∈ xs, x.range = r := by
  obtain ⟨x, hx, hr⟩ := List.mem_filterMap.1 h
  obtain ⟨-, -, rfl⟩ := Option.map_eq_some_iff.1 hr
  exact ⟨x, hx, rfl⟩

theorem offset_le_of_standFrom : ∀ {xs : List Located} {offset : Nat}, StandFrom offset xs →
    ∀ x ∈ xs, offset ≤ x.span.start
  | x :: xs, offset, ⟨hx, hxs⟩, y, hy => by
    rcases List.mem_cons.1 hy with rfl | hy
    · rw [hx]
    · have := offset_le_of_standFrom hxs y hy
      rw [hx] at this
      simp only at this
      omega

theorem pairwise_of_standFrom : ∀ {xs : List Located} {offset : Nat}, StandFrom offset xs →
    xs.Pairwise fun a b => a.span.stop < b.span.start
  | [], _, _ => List.Pairwise.nil
  | x :: xs, offset, ⟨_, hxs⟩ => by
    refine List.Pairwise.cons (fun y hy => ?_) (pairwise_of_standFrom hxs)
    have := offset_le_of_standFrom hxs y hy
    omega

variable {p : Program} {xs : List Located}

theorem Reads.pairwise (h : Reads p xs) : xs.Pairwise fun a b => a.range.stop < b.range.start := by
  refine (pairwise_of_standFrom h.spans).imp_of_mem fun ha hb hab => ?_
  have hstop := (h.ranges _ ha).2.2
  have hstart := (h.ranges _ hb).1
  omega

/-- A place in a section is owned by its declarator, or by none. -/
theorem Reads.owner_of_within (h : Reads p xs) {x : Located} (hx : x ∈ xs) {u : Span}
    (hu : u.Within x.range) :
    owner (cuttable xs) u = x.declarator? := by
  obtain ⟨front, back, rfl⟩ := List.append_of_mem hx
  obtain ⟨-, hxback, hcross⟩ := List.pairwise_append.1 h.pairwise
  obtain ⟨hu₁, hu₂, hu₃⟩ := hu
  have hfront : ∀ r ∈ cuttable front, r.start ≤ r.stop ∧ r.stop < u.start := fun r hr => by
    obtain ⟨y, hy, rfl⟩ := mem_cuttable hr
    have hlt := hcross y hy x List.mem_cons_self
    exact ⟨(h.ranges y (List.mem_append_left _ hy)).2.1, by omega⟩
  have hback : ∀ r ∈ cuttable back, u.start < r.start := fun r hr => by
    obtain ⟨y, hy, rfl⟩ := mem_cuttable hr
    have hlt := List.rel_of_pairwise_cons hxback hy
    omega
  rcases hbinds : x.declarator? with _ | r₀
  · -- The ranges in front of the section end before the place.
    have hlist : cuttable (front ++ x :: back) = cuttable front ++ cuttable back := by
      simp [cuttable, hbinds]
    rw [hlist, Liveness.owner_append (fun r hr => by have := hfront r hr; omega) hback]
    rcases hlast : (cuttable front).getLast? with _ | r
    · rfl
    · have := hfront r (List.mem_of_getLast? hlast)
      simp only [Option.filter_eq_none_iff, Option.some.injEq, decide_eq_true_eq]
      rintro _ rfl
      omega
  · obtain ⟨-, -, rfl⟩ := Option.map_eq_some_iff.1 hbinds
    have hlist : cuttable (front ++ x :: back)
        = (cuttable front ++ [x.range]) ++ cuttable back := by
      simp [cuttable, hbinds]
    rw [hlist, Liveness.owner_append ?_ hback]
    · simp [hu₃]
    · intro r hr
      rcases List.mem_append.1 hr with hr | hr
      · have := hfront r hr
        omega
      · rw [List.mem_singleton.1 hr]
        exact hu₁

/-- Sections are told apart by their ranges. -/
theorem Reads.eq_of_range (h : Reads p xs) {x y : Located} (hx : x ∈ xs) (hy : y ∈ xs)
    (hr : x.range = y.range) : x = y := by
  have hnodup : (xs.map (·.range)).Nodup := by
    refine List.pairwise_map.2 (h.pairwise.imp_of_mem fun ha _ hab heq => ?_)
    have hlen := (h.ranges _ ha).2.1
    rw [← heq] at hab
    omega
  exact List.inj_on_of_nodup_map hnodup hx hy hr

end Owner

/-! ## Bindings -/

section Bindings

theorem declarators_statements (xs : List Located) :
    declarators (xs.map Located.statement)
      = xs.zipIdx.filterMap fun (x, i) => x.part.binds.map fun _ => (i, 0, x.range) := by
  rw [declarators, List.zipIdx_map, List.flatMap_map, List.filterMap_eq_flatMap_toList]
  refine List.flatMap_congr fun ⟨x, i⟩ _ => ?_
  rcases hbinds : x.part.binds with _ | name <;> simp [Located.statement, hbinds]

/-- The symbols of a script by the sections that declare and use them. -/
def symbolsBy (p : Program) (xs : List Located) : List Liveness.Placed :=
  (Symbol.ofItems p.items).map (place (cuttable xs))

/-- The binding of a section that may be cut. -/
def bindingOf (p : Program) (xs : List Located) (x : Located) (i : Nat) : Binding :=
  ⟨i, 0, x.range, declaredIn x.range (symbolsBy p xs), usedIn (some x.range) (symbolsBy p xs)⟩

variable {p : Program} {xs : List Located}

theorem Reads.ranges_eq (h : Reads p xs) :
    (declarators p.statements).map (·.2.2) = cuttable xs := by
  rw [h.statements, declarators_statements, List.map_filterMap]
  conv_rhs => rw [cuttable, ← List.zipIdx_map_fst 0 xs, List.filterMap_map]
  refine List.filterMap_congr fun ⟨x, i⟩ _ => ?_
  rw [Option.map_map]
  rfl

theorem Reads.seeds_eq (h : Reads p xs) :
    (Liveness.ofProgram p).seeds = usedIn none (symbolsBy p xs) := by
  rw [symbolsBy, ← h.ranges_eq]
  rfl

theorem Reads.mem_bindings (h : Reads p xs) {b : Binding} :
    b ∈ (Liveness.ofProgram p).bindings ↔
      ∃ x i, xs[i]? = some x ∧ x.part.binds.isSome ∧ b = bindingOf p xs x i := by
  have hlist : (Liveness.ofProgram p).bindings = xs.zipIdx.filterMap fun (x, i) =>
      x.part.binds.map fun _ => bindingOf p xs x i := by
    rw [Liveness.ofProgram]
    simp only [h.ranges_eq]
    rw [h.statements, declarators_statements, List.map_filterMap]
    refine List.filterMap_congr fun ⟨x, i⟩ _ => ?_
    rw [Option.map_map]
    rfl
  rw [hlist, List.mem_filterMap]
  constructor
  · rintro ⟨⟨x, i⟩, hmem, hb⟩
    obtain ⟨name, hname, rfl⟩ := Option.map_eq_some_iff.1 hb
    exact ⟨x, i, List.mem_zipIdx_iff_getElem?.1 hmem, by simp [hname], rfl⟩
  · rintro ⟨x, i, hx, hsome, rfl⟩
    obtain ⟨name, hname⟩ := Option.isSome_iff_exists.1 hsome
    exact ⟨(x, i), List.mem_zipIdx_iff_getElem?.2 hx, by simp [hname]⟩

theorem mem_declaredIn {r : Span} {n : String} : n ∈ declaredIn r (symbolsBy p xs) ↔
    ∃ s ∈ Symbol.ofItems p.items, s.name = n ∧ owner (cuttable xs) s.span = some r :=
  Liveness.mem_declaredIn_place

theorem mem_usedIn {r : Option Span} {n : String} : n ∈ usedIn r (symbolsBy p xs) ↔
    ∃ s ∈ Symbol.ofItems p.items, s.name = n ∧ ∃ u ∈ s.uses, owner (cuttable xs) u = r := by
  simp only [symbolsBy, Liveness.usedIn_place, List.mem_map, List.mem_filter, decide_eq_true_eq]
  constructor
  · rintro ⟨s, ⟨hs, hr⟩, rfl⟩
    exact ⟨s, hs, rfl, hr⟩
  · rintro ⟨s, hs, rfl, hr⟩
    exact ⟨s, ⟨hs, hr⟩, rfl⟩

end Bindings

/-! ## The names of a section -/

section Names

variable {p : Program} {xs : List Located}

/-- A binding has the name of its section. -/
theorem Reads.mem_names (h : Reads p xs) {x : Located} (hx : x ∈ xs) {name : String}
    (hbinds : x.part.binds = some name) {n : String} :
    n ∈ declaredIn x.range (symbolsBy p xs) ↔ n = name := by
  rw [mem_declaredIn]
  constructor
  · rintro ⟨s, hs, rfl, howner⟩
    obtain ⟨y, hy, hwithin, hname⟩ := h.homes s hs
    rw [h.owner_of_within hy hwithin] at howner
    obtain ⟨-, -, hrange⟩ := Option.map_eq_some_iff.1 howner
    cases h.eq_of_range hy hx hrange
    exact hname name hbinds
  · rintro rfl
    obtain ⟨s, hs, hname, hwithin⟩ := h.bound x hx n hbinds
    exact ⟨s, hs, hname, by rw [h.owner_of_within hx hwithin, Located.declarator?, hbinds]; rfl⟩

/-- The section of a binding, by one of its names. -/
theorem Reads.exists_of_mem_names (h : Reads p xs) {b : Binding}
    (hb : b ∈ (Liveness.ofProgram p).bindings) {n : String} (hn : n ∈ b.names) :
    ∃ x ∈ xs, x.part.binds = some n ∧ b.references = usedIn (some x.range) (symbolsBy p xs) := by
  obtain ⟨x, i, hx, hsome, rfl⟩ := h.mem_bindings.1 hb
  obtain ⟨name, hbinds⟩ := Option.isSome_iff_exists.1 hsome
  have hmem := List.mem_of_getElem? hx
  cases (h.mem_names hmem hbinds).1 hn
  exact ⟨x, hmem, hbinds, rfl⟩

/-- A name is used where a section refers to it. -/
theorem Reads.refers_of_mem_usedIn (h : Reads p xs) {r : Option Span} {n : String}
    (hn : n ∈ usedIn r (symbolsBy p xs)) :
    ∃ x ∈ xs, x.declarator? = r ∧ (n = "z" ∨ n ∈ x.part.refers) := by
  obtain ⟨s, hs, rfl, u, hu, howner⟩ := mem_usedIn.1 hn
  obtain ⟨x, hx, hwithin, hname⟩ := h.users s hs u hu
  rw [h.owner_of_within hx hwithin] at howner
  exact ⟨x, hx, howner, hname⟩

/-- What a section refers to is used there, if a section binds it. -/
theorem Reads.mem_usedIn_of_refers (h : Reads p xs) {x y : Located} (hx : x ∈ xs) (hy : y ∈ xs)
    {name : String} (hbinds : y.part.binds = some name) (hname : name ∈ x.part.refers) :
    name ∈ usedIn x.declarator? (symbolsBy p xs) := by
  obtain ⟨s, hs, rfl, -⟩ := h.bound y hy name hbinds
  obtain ⟨u, hu, hwithin⟩ := h.used x hx s hs hname
  exact mem_usedIn.2 ⟨s, hs, rfl, u, hu, h.owner_of_within hx hwithin⟩

end Names

/-! ## Live bindings -/

section Live

variable {m : Module} {exported : Bool} {p : Program} {front : List Part} {last : Part}
  {xs : List Located}

theorem ReadsModule.part_mem (h : ReadsModule m exported p front last xs) {x : Located}
    (hx : x ∈ xs) : x.part ∈ front ++ [last] := by
  rw [← h.located]
  exact List.mem_map_of_mem hx

theorem ReadsModule.exists_of_part (h : ReadsModule m exported p front last xs) {part : Part}
    (hpart : part ∈ front ++ [last]) : ∃ x ∈ xs, x.part = part := by
  rw [← h.located] at hpart
  exact List.mem_map.1 hpart

/-- The bindings of live components have every binding that a seed or one of them uses. -/
theorem closed_live (hnames : ∀ name ∈ Assoc.keys m.components, name ∉ Module.reserved)
    (h : ReadsModule m false p front last xs) : (Liveness.ofProgram p).Closed
      {b | b ∈ (Liveness.ofProgram p).bindings ∧ ∃ n ∈ b.names, m.Live n} := by
  -- The name of a binding is that of a component, so it is not the one the import has.
  have hkey : ∀ b ∈ (Liveness.ofProgram p).bindings, ∀ n ∈ b.names,
      n ∈ Assoc.keys m.components ∧ n ≠ "z" := fun b hb n hn => by
    obtain ⟨x, hx, hbinds, -⟩ := h.exists_of_mem_names hb hn
    obtain ⟨-, c, hc, rfl, -⟩ := Module.component_of_binds h.parts (h.part_mem hx) hbinds
    have hmemKeys : c.1 ∈ Assoc.keys m.components := List.mem_map_of_mem hc
    refine ⟨hmemKeys, fun hz => hnames _ hmemKeys ?_⟩
    rw [hz]
    decide
  refine ⟨fun b hb n hn hseed => ?_, ?_⟩
  · obtain ⟨hmemKeys, hz⟩ := hkey b hb n hn
    rw [h.seeds_eq] at hseed
    obtain ⟨y, hy, hnone, hrefers⟩ := h.refers_of_mem_usedIn hseed
    have hplain : y.part.binds = none := Option.map_eq_none_iff.1 hnone
    refine ⟨hb, n, hn, .operation ?_ hmemKeys⟩
    exact Module.operation_of_binds h.parts (h.part_mem hy) hplain (hrefers.resolve_left hz)
  · rintro a ⟨ha, k, hk, hlive⟩ n hn b hb hbn
    obtain ⟨hmemKeys, hz⟩ := hkey b hb n hbn
    obtain ⟨x, hx, hbinds, hreferences⟩ := h.exists_of_mem_names ha hk
    rw [hreferences] at hn
    obtain ⟨y, hy, hsame, hrefers⟩ := h.refers_of_mem_usedIn hn
    obtain ⟨-, -, hrange⟩ := Option.map_eq_some_iff.1 hsame
    cases h.eq_of_range hy hx hrange
    obtain ⟨-, c, hc, rfl, hc'⟩ := Module.component_of_binds h.parts (h.part_mem hx) hbinds
    exact ⟨hb, n, hbn, .component hc hlive (hc' ▸ hrefers.resolve_left hz) hmemKeys⟩

/-- Every binding of a live component is reached. -/
theorem marked_of_live (h : ReadsModule m false p front last xs) {name : String}
    (hlive : m.Live name) :
    ∀ b ∈ (Liveness.ofProgram p).bindings, name ∈ b.names → b ∈ (Liveness.ofProgram p).marked := by
  induction hlive with
  | operation hname _ =>
    intro b hb hbn
    obtain ⟨y, hy, hbinds, -⟩ := h.exists_of_mem_names hb hbn
    obtain ⟨part, hpart, hnone, hrefers⟩ := Module.exists_part_of_operation h.parts hname
    obtain ⟨x, hx, rfl⟩ := h.exists_of_part hpart
    refine (Liveness.marked_closed _).seeds b hb _ hbn ?_
    have hused := h.mem_usedIn_of_refers hx hy hbinds hrefers
    rwa [Located.declarator?, hnone, Option.map_none, ← h.seeds_eq] at hused
  | component hc _ hname _ ih =>
    intro b hb hbn
    obtain ⟨y, hy, hbinds, -⟩ := h.exists_of_mem_names hb hbn
    obtain ⟨part, hpart, hok⟩ := Module.exists_part_of_component h.parts hc
    obtain ⟨x, hx, rfl⟩ := h.exists_of_part hpart
    obtain ⟨hxbinds, hrefers, -⟩ := Module.componentPart_eq_ok hok
    simp only [Bool.false_eq_true, if_false] at hxbinds
    obtain ⟨i, hi⟩ := List.getElem?_of_mem hx
    have hbinding : bindingOf p xs x i ∈ (Liveness.ofProgram p).bindings :=
      h.mem_bindings.2 ⟨x, i, hi, by simp [hxbinds], rfl⟩
    have hmarked := ih _ hbinding ((h.mem_names hx hxbinds).2 rfl)
    refine (Liveness.marked_closed _).uses _ hmarked _ ?_ b hb hbn
    have hused := h.mem_usedIn_of_refers hx hy hbinds (hrefers ▸ hname)
    rwa [Located.declarator?, hxbinds, Option.map_some] at hused

/-- The live bindings are those of the live components. -/
theorem declares_iff_live (hnames : ∀ name ∈ Assoc.keys m.components, name ∉ Module.reserved)
    (h : ReadsModule m false p front last xs) {x : Located} {i : Nat} (hx : xs[i]? = some x)
    {name : String} (hbinds : x.part.binds = some name) :
    (bindingOf p xs x i).declares (Liveness.ofProgram p).reached = true ↔ m.Live name := by
  have hmem := List.mem_of_getElem? hx
  have hb : bindingOf p xs x i ∈ (Liveness.ofProgram p).bindings :=
    h.mem_bindings.2 ⟨x, i, hx, by simp [hbinds], rfl⟩
  constructor
  · intro hd
    obtain ⟨-, n, hn, hlive⟩ :=
      Liveness.marked_subset _ (closed_live hnames h) ⟨hb, hd⟩
    rwa [← (h.mem_names hmem hbinds).1 hn]
  · intro hlive
    exact (marked_of_live h hlive _ hb ((h.mem_names hmem hbinds).2 rfl)).2

end Live

/-! ## The edits -/

section Edits

variable {m : Module} {p : Program} {xs : List Located}

/-- The edit that cuts a declaration as a whole. -/
def cutOf (source : List Char) (span : Span) : Edit :=
  ⟨(removalRange source span).1, (removalRange source span).2, []⟩

theorem editOf?_of_flags (source : List Char) (d : Declaration) {flags : List Bool} {live : Bool}
    (hmem : live ∈ flags) (h : ∀ f ∈ flags, f = live) :
    editOf? source d flags = if live then none else some (cutOf source d.span) := by
  unfold editOf?
  cases live
  · have hall : flags.all id = false := List.all_eq_false.2 ⟨false, hmem, by simp⟩
    have hany : flags.any id = false := List.any_eq_false.2 fun f hf => by simp [h f hf]
    rw [hall, hany]
    rfl
  · have hall : flags.all id = true := List.all_eq_true.2 h
    rw [hall]
    rfl

/-- When the live bindings are those of live components, the edits cut the other sections. -/
theorem Reads.edits_eq (h : Reads p xs) (source : List Char)
    (hlive : ∀ {x : Located} {i : Nat} {name : String}, xs[i]? = some x →
      x.part.binds = some name →
      ((bindingOf p xs x i).declares (Liveness.ofProgram p).reached = true ↔ m.Live name)) :
    edits source p
      = xs.filterMap fun x => if m.keeps x.part then none else some (cutOf source x.span) := by
  unfold edits
  rw [h.statements, List.zipIdx_map, List.filterMap_map]
  conv_rhs => rw [← List.zipIdx_map_fst 0 xs, List.filterMap_map]
  refine List.filterMap_congr fun ⟨x, i⟩ hmem => ?_
  have hx : xs[i]? = some x := List.mem_zipIdx_iff_getElem?.1 hmem
  rcases hbinds : x.part.binds with _ | name
  · simp [Located.statement, hbinds, Module.keeps_of_binds hbinds]
  · have hkeeps : (bindingOf p xs x i).declares (Liveness.ofProgram p).reached
        = m.keeps x.part := by
      rw [Bool.eq_iff_iff, hlive hx hbinds, Module.keeps_iff hbinds]
    simp only [Function.comp_apply, Prod.map_apply, Located.statement, hbinds, Option.map_some,
      Option.bind_some, id]
    refine editOf?_of_flags source ⟨.const, x.span, [x.range]⟩ ?_ ?_
    · rw [← hkeeps]
      refine List.mem_map_of_mem (List.mem_filter.2 ⟨?_, by simp [bindingOf]⟩)
      exact h.mem_bindings.2 ⟨x, i, hx, by simp [hbinds], rfl⟩
    · intro f hf
      obtain ⟨b, hb, rfl⟩ := List.mem_map.1 hf
      obtain ⟨hb, hstatement⟩ := List.mem_filter.1 hb
      obtain ⟨y, j, hy, -, rfl⟩ := h.mem_bindings.1 hb
      cases (beq_iff_eq.1 hstatement : j = i)
      cases Option.some.inj (hx.symm.trans hy)
      exact hkeeps

/-- A text of sections does not start with a blank. -/
theorem exists_textOf {front : List Part} {last : Part}
    (h : ∀ part ∈ front ++ [last], part.Opens) :
    ∃ c rest, textOf front last = c :: rest ∧ Text.isBlank c = false := by
  cases front with
  | nil =>
    obtain ⟨c, hc, hblank⟩ := h last (by simp)
    obtain ⟨cs, hcs⟩ := List.head?_eq_some_iff.1 hc
    exact ⟨c, cs ++ ['\n'], by simp [textOf, hcs], hblank⟩
  | cons part front =>
    obtain ⟨c, hc, hblank⟩ := h part (by simp)
    obtain ⟨cs, hcs⟩ := List.head?_eq_some_iff.1 hc
    exact ⟨c, cs ++ ['\n', '\n'] ++ textOf front last, by simp [textOf, spaced, hcs], hblank⟩

theorem byteLength_spaced (part : Part) :
    byteLength (spaced part) = byteLength part.text.toList + 2 := by
  rw [spaced, Text.byteLength_append]
  rfl

/-- Behind a line break, the edits of sections cut them with the empty lines below them. -/
theorem filterMap_cutOf (source : List Char) (last : Located) :
    ∀ (xs : List Located) (front : List Char),
      (∀ x ∈ xs ++ [last], x.part.Opens) →
      StandFrom (byteLength (front ++ ['\n'])) (xs ++ [last]) →
      source = front ++ ['\n'] ++ textOf (xs.map (·.part)) last.part →
      (xs.filterMap fun x => if m.keeps x.part then none else some (cutOf source x.span))
        = cuts (byteLength (front ++ ['\n']))
            (xs.map fun x => (spaced x.part, m.keeps x.part))
  | [], _, _, _, _ => rfl
  | x :: xs, front, hopens, ⟨hspan, hstand⟩, hsource => by
    obtain ⟨c, rest, hrest, hc⟩ : ∃ c rest, textOf (xs.map (·.part)) last.part = c :: rest
        ∧ Text.isBlank c = false := by
      refine exists_textOf fun part hpart => ?_
      rw [← List.map_singleton, ← List.map_append] at hpart
      obtain ⟨y, hy, rfl⟩ := List.mem_map.1 hpart
      exact hopens y (List.mem_cons_of_mem _ hy)
    have hsplit : source
        = front ++ ['\n'] ++ x.part.text.toList ++ '\n' :: '\n' :: c :: rest := by
      rw [hsource, ← hrest]
      simp [textOf, spaced]
    -- The next section opens with `c`, so the cut ends right before it.
    have hcut : cutOf source x.span
        = ⟨byteLength (front ++ ['\n']), byteLength (front ++ ['\n']) + byteLength (spaced x.part),
            []⟩ := by
      rw [cutOf, hsplit, removalRange_section front _ rest hc x.span (by rw [hspan])
        (by rw [hspan, Text.byteLength_append (front ++ ['\n'])]), hspan, byteLength_spaced,
        Nat.add_assoc]
    have hnext : byteLength (front ++ ['\n'] ++ x.part.text.toList ++ ['\n'] ++ ['\n'])
        = byteLength (front ++ ['\n']) + byteLength (spaced x.part) := by
      rw [← Text.byteLength_append]
      simp [spaced]
    have ih := filterMap_cutOf source last xs (front ++ ['\n'] ++ x.part.text.toList ++ ['\n'])
      (fun y hy => hopens y (List.mem_cons_of_mem _ hy))
      (by
        rw [hnext, byteLength_spaced, ← Nat.add_assoc]
        rw [hspan] at hstand
        exact hstand)
      (by
        rw [hsource]
        simp [textOf, spaced])
    rw [hnext] at ih
    rcases hkeep : m.keeps x.part with _ | _
    · simp [cuts, hkeep, hcut, ih]
    · simp [cuts, hkeep, ih]

/-- The sections of a module's text, with whether they stay. -/
noncomputable def piecesOf (m : Module) (front : List Part) (last : Part) :
    List (List Char × Bool) :=
  (front.map fun part => (spaced part, m.keeps part)) ++ [(last.text.toList ++ ['\n'], true)]

theorem flatMap_piecesOf (m : Module) (front : List Part) (last : Part) :
    (piecesOf m front last).flatMap Prod.fst = textOf front last := by
  simp [piecesOf, textOf, List.flatMap_append, List.flatMap_map]

theorem flatMap_filter_piecesOf (m : Module) (front : List Part) (last : Part) :
    ((piecesOf m front last).filter Prod.snd).flatMap Prod.fst
      = textOf (front.filter m.keeps) last := by
  simp [piecesOf, textOf, List.filter_append, List.filter_map, List.flatMap_append,
    List.flatMap_map, Function.comp_def]

/-- The edits cut the sections that do not stay. -/
theorem edits_eq_cuts {exported : Bool} {front : List Part} {last : Part}
    (hnames : ∀ name ∈ Assoc.keys m.components, name ∉ Module.reserved)
    (h : ReadsModule m exported p front last xs) :
    edits (textOf front last) p = cuts 0 (piecesOf m front last) := by
  have hopens : ∀ x ∈ xs, x.part.Opens := fun x hx =>
    (Module.mem_parts h.parts (h.part_mem hx)).1
  have hedits := h.edits_eq (textOf front last) fun {x i name} hx hbinds => by
    have hpart := h.part_mem (List.mem_of_getElem? hx)
    obtain ⟨rfl, -⟩ := Module.component_of_binds h.parts hpart hbinds
    exact declares_iff_live hnames h hx hbinds
  obtain ⟨hlast, rest, rfl⟩ := Module.parts_ends h.parts
  -- The first section and the last stay; the others stand behind a line break.
  obtain ⟨x, ys, rfl, hx, hys⟩ := List.map_eq_cons_iff.1 h.located
  obtain ⟨mid, zs, rfl, rfl, hzs⟩ := List.map_eq_append_iff.1 hys
  obtain ⟨z, rfl, rfl⟩ := List.map_eq_singleton_iff.1 hzs
  have hstart : byteLength (Module.importPart.text.toList ++ ['\n'] ++ ['\n'])
      = byteLength (spaced Module.importPart) := by simp [spaced]
  obtain ⟨hspan, hstand⟩ := h.spans
  rw [hspan, hx, Nat.zero_add] at hstand
  have hcuts := filterMap_cutOf (m := m)
    (textOf (Module.importPart :: mid.map (·.part)) z.part) z mid
    (Module.importPart.text.toList ++ ['\n']) (fun y hy => hopens y (List.mem_cons_of_mem _ hy))
    (by rw [hstart, byteLength_spaced]; exact hstand) (by simp [textOf, spaced])
  have hfirst : m.keeps Module.importPart = true := Module.keeps_of_binds rfl
  rw [hstart] at hcuts
  rw [hedits, piecesOf, cuts_concat_kept, List.map_cons, cuts, hfirst, if_pos rfl, Nat.zero_add,
    List.map_map]
  simp [hx, hfirst, Module.keeps_of_binds hlast, hcuts, Function.comp_def]

end Edits

end Script

namespace Module

open Script (Located Reads ReadsModule)

/-- A text is read as a script by the sections of a module. -/
def ReadBySections (m : Module) (exported : Bool) (text : String) : Prop :=
  ∃ p front last xs, Script.parse text = .ok p ∧ ReadsModule m exported p front last xs

section Shelter

/-- Sections from an offset on, of which those that may be cut are read as declarations of one
name. -/
def locateFrom : Nat → List Part → List Located
  | _, [] => []
  | offset, part :: parts =>
    let stop := offset + Text.byteLength part.text.toList
    let range := if part.binds.isSome then ⟨offset + 6, stop - 1⟩ else ⟨offset, stop⟩
    ⟨part, ⟨offset, stop⟩, range⟩ :: locateFrom (stop + 2) parts

theorem map_part_locateFrom : ∀ (parts : List Part) (offset : Nat),
    (locateFrom offset parts).map Located.part = parts
  | [], _ => rfl
  | part :: parts, _ => by simp [locateFrom, map_part_locateFrom parts]

/-- Two components that refer to each other are live. One that refers to itself is not, and neither
is one that refers to a live component. -/
def shelter : Module where
  components := [("dogSchema", .plain (.reference "catSchema")),
    ("foxSchema", .plain (.reference "foxSchema")), ("owlSchema", .plain (.reference "dogSchema")),
    ("catSchema", .plain (.reference "dogSchema"))]
  operations := [⟨"/dogs", "get", none, .plain .any, .plain (.reference "dogSchema")⟩]

def shelterText : String :=
  "import \x7b z \x7d from \"zod\";\n\nconst dogSchema = z.lazy(() => catSchema);\n\n"
    ++ "const foxSchema = z.lazy(() => foxSchema);\n\nconst owlSchema = z.lazy(() => dogSchema);\n\n"
    ++ "const catSchema = z.lazy(() => dogSchema);\n\nexport const requestSchema = z.any();\n\n"
    ++ "export const responseSchema = z.lazy(() => dogSchema);\n"

theorem render_shelter : shelter.render false = .ok shelterText := by decide +kernel

theorem readBySections_shelter : shelter.ReadBySections false shelterText := by
  have h : ((Script.Program.parse shelterText).toOption.bind fun p =>
      (shelter.parts false).toOption.map fun ps =>
        decide (Reads p (locateFrom 0 (ps.1 ++ [ps.2])))) = some true := by
    -- Evaluation takes the square of its length to find the characters of a literal.
    delta shelterText
    rewrite [Script.Program.parse_eq]
    iterate 3 rewrite [String.toList_append]
    iterate 4 rewrite [String.toList_ofList]
    decide +kernel
  rcases hparse : Script.Program.parse shelterText with offset | p <;> rw [hparse] at h
  · cases h
  · rcases hparts : shelter.parts false with e | ⟨front, last⟩ <;> rw [hparts] at h
    · cases h
    · have hreads := of_decide_eq_true (Option.some.inj h)
      exact ⟨p, front, last, _, Script.parse_eq_ok.2 hparse, hreads, hparts,
        map_part_locateFrom _ _⟩

end Shelter

section Pruned

variable {m : Module} {exported : Bool} {source : String}

/-- Pruning the text of a module leaves the sections that stay. -/
theorem prune_eq_kept (hnames : ∀ name ∈ Assoc.keys m.components, name ∉ reserved)
    (hrender : m.render exported = .ok source) (hread : m.ReadBySections exported source) :
    ∃ front last, m.parts exported = .ok (front, last)
      ∧ Script.prune source = .ok (String.ofList (textOf (front.filter m.keeps) last)) := by
  obtain ⟨p, front, last, xs, hparse, hreads⟩ := hread
  obtain ⟨front', last', hparts', hsource⟩ := render_eq_ok.1 hrender
  cases hreads.parts.symm.trans hparts'
  refine ⟨front, last, hreads.parts, ?_⟩
  rw [Script.prune, hparse, Outcome.ok_bind, hsource, Script.edits_eq_cuts hnames hreads,
    ← Script.flatMap_piecesOf m, Script.applyEdits_cuts, Script.flatMap_filter_piecesOf]

/-- The text of a module stays as it is when the module exports its components, or all of them are
live. -/
theorem prune_eq_self (hnames : ∀ name ∈ Assoc.keys m.components, name ∉ reserved)
    (hrender : m.render exported = .ok source) (hread : m.ReadBySections exported source)
    (hlive : exported = false → ∀ name ∈ Assoc.keys m.components, m.Live name) :
    Script.prune source = .ok source := by
  obtain ⟨front, last, hparts, hprune⟩ := prune_eq_kept hnames hrender hread
  obtain ⟨front', last', hparts', hsource⟩ := render_eq_ok.1 hrender
  cases hparts.symm.trans hparts'
  have hkeep : front.filter m.keeps = front := by
    refine List.filter_eq_self.2 fun part hpart => ?_
    rcases hbinds : part.binds with _ | name
    · exact keeps_of_binds hbinds
    · obtain ⟨hplain, b, hb, rfl, -⟩ :=
        component_of_binds hparts (List.mem_append_left _ hpart) hbinds
      exact (keeps_iff hbinds).2 (hlive hplain _ (List.mem_map_of_mem hb))
  rw [hprune, hkeep, ← hsource, String.ofList_toList]

end Pruned

/-- Pruning the text of a module leaves the text of the module without the components that no
operation leads to, whatever refers to them. A module that exports its components loses none. -/
theorem prune_render {m : Module} {exported : Bool} {source : String}
    (hnames : ∀ name ∈ Assoc.keys m.components, name ∉ reserved)
    (hrender : m.render exported = .ok source) (hread : m.ReadBySections exported source) :
    ∃ text, Script.prune source = .ok text
      ∧ if exported then text = source else m.shaken.render false = .ok text := by
  cases exported
  · obtain ⟨front, last, hparts, hprune⟩ := prune_eq_kept hnames hrender hread
    exact ⟨_, hprune, render_eq_ok.2 ⟨_, last, parts_shaken hparts, by simp⟩⟩
  · exact ⟨source, prune_eq_self hnames hrender hread (by simp), rfl⟩

theorem prune_render_shelter : shelter.render false = .ok shelterText
    ∧ shelter.ReadBySections false shelterText
    ∧ ∃ text, Script.prune shelterText = .ok text ∧ shelter.shaken.render false = .ok text :=
  ⟨render_shelter, readBySections_shelter,
    prune_render (by decide) render_shelter readBySections_shelter⟩

/-- What is left of a module's text is not cut again, when it is read by its sections as well: the
components that are left are live without the others. -/
theorem prune_again_render {m : Module} {exported : Bool} {source : String}
    (hnames : ∀ name ∈ Assoc.keys m.components, name ∉ reserved)
    (hrender : m.render exported = .ok source) (hread : m.ReadBySections exported source)
    (hreread : ∀ text, m.shaken.render false = .ok text → m.shaken.ReadBySections false text) :
    (Script.prune source >>= Script.prune) = Script.prune source := by
  cases exported
  · obtain ⟨front, last, hparts, hprune⟩ := prune_eq_kept hnames hrender hread
    have hshaken : m.shaken.render false
        = .ok (String.ofList (textOf (front.filter m.keeps) last)) :=
      render_eq_ok.2 ⟨_, last, parts_shaken hparts, by simp⟩
    rw [hprune, Outcome.ok_bind]
    refine prune_eq_self (fun name hname => ?_) hshaken (hreread _ hshaken) fun _ name hname => ?_
    · exact hnames name (mem_keys_shaken.1 hname).1
    · exact (mem_keys_shaken.1 hname).2.shaken
  · rw [prune_eq_self hnames hrender hread (by simp), Outcome.ok_bind,
      prune_eq_self hnames hrender hread (by simp)]

end Module

end ZodGen
