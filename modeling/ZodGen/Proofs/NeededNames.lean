import ZodGen.Proofs.DeclaratorOrder
import ZodGen.Proofs.Liveness
import ZodGen.Proofs.NameHomes
import ZodGen.Proofs.Owners
import ZodGen.Proofs.PruneTwice

/-!
# Declarators of needed names

A name belongs to the declarator that holds its first declaration, and to no other. If the name is
needed, that declarator is live and pruning keeps it (`live_of_needed`). A later declarator of the
same name does not have it, and is cut though its name is needed (`prune_redeclared`).
-/

namespace ZodGen.Script

/-! ## The owner of a name -/

theorem Span.InOrder.apart {ranges : List Span} {start stop : Nat}
    (h : Span.InOrder start ranges stop) : Span.Apart ranges where
  nonempty r hr := (h.bounds r hr).2
  sorted := h.pairwise.imp_of_mem fun ha _ hle =>
    Nat.le_trans (Nat.le_of_lt (h.bounds _ ha).2) hle
  disjoint := h.pairwise.imp .inl

namespace Liveness

/-- A range that holds a place is its owner, among ranges in order. -/
theorem owner_of_inOrder {ranges : List Span} {start stop : Nat}
    (h : Span.InOrder start ranges stop) {r s : Span} (hr : r ∈ ranges) (hstart : r.start ≤ s.start)
    (hlt : s.start < s.stop) (hstop : s.stop ≤ r.stop) : owner ranges s = some r :=
  (owner_eq_some_iff h.apart hlt).2 ⟨hr, hstart, hstop⟩

/-- The declarators of one statement, with their places. -/
def rowOf (statement : Option Declaration) (i : Nat) : List (Nat × Nat × Span) :=
  (HasPlaces.places statement).zipIdx.map fun x => (i, x.2, x.1)

theorem declarators_eq (statements : List (Option Declaration)) :
    declarators statements = statements.zipIdx.flatMap fun x => rowOf x.1 x.2 := by
  refine List.flatMap_congr fun x _ => ?_
  rcases x with ⟨_ | d, i⟩ <;> rfl

theorem map_span_declarators (statements : List (Option Declaration)) :
    (declarators statements).map (·.2.2) = HasPlaces.places statements := by
  have hrow (x : Option Declaration × Nat) :
      (rowOf x.1 x.2).map (·.2.2) = HasPlaces.places x.1 := by
    rw [rowOf, List.map_map]
    exact List.zipIdx_map_fst 0 _
  rw [declarators_eq, List.map_flatMap]
  simp only [hrow]
  rw [← List.flatMap_map Prod.fst HasPlaces.places, List.zipIdx_map_fst]
  rfl

theorem flatMap_zipIdx_of_index {α β : Type} (f : α × Nat → List β) :
    ∀ (xs : List α) (n i : Nat), (xs.zipIdx n).flatMap (fun x => if x.2 == n + i then f x else [])
      = (xs[i]?).elim [] fun a => f (a, n + i)
  | [], _, _ => rfl
  | a :: xs, n, 0 => by
    have hrest : (xs.zipIdx (n + 1)).flatMap (fun x => if x.2 == n + 0 then f x else []) = [] := by
      refine List.flatMap_eq_nil_iff.2 fun x hx => ?_
      have hle := List.le_snd_of_mem_zipIdx hx
      rw [if_neg (by simp; omega)]
    rw [List.zipIdx_cons, List.flatMap_cons, hrest]
    simp
  | a :: xs, n, i + 1 => by
    have ih := flatMap_zipIdx_of_index f xs (n + 1) i
    rw [Nat.add_right_comm] at ih
    rw [List.zipIdx_cons, List.flatMap_cons, if_neg (by simp)]
    exact ih

/-- The declarators of a statement stand together. -/
theorem filter_declarators {statements : List (Option Declaration)} {i : Nat} {d : Declaration}
    (h : statements[i]? = some (some d)) :
    (declarators statements).filter (·.1 == i) = rowOf (some d) i := by
  have hrow (x : Option Declaration × Nat) : (rowOf x.1 x.2).filter (·.1 == i)
      = if x.2 == i then rowOf x.1 x.2 else [] := by
    cases hi : x.2 == i <;> simp [rowOf, List.filter_map, Function.comp_def, hi]
  have hindex := flatMap_zipIdx_of_index (fun x => rowOf x.1 x.2) statements 0 i
  simp only [Nat.zero_add, h] at hindex
  rw [declarators_eq, List.filter_flatMap]
  simp only [hrow]
  exact hindex

theorem mem_declarators {statements : List (Option Declaration)} {x : Nat × Nat × Span}
    (h : x ∈ declarators statements) :
    ∃ d, statements[x.1]? = some (some d) ∧ d.declarators[x.2.1]? = some x.2.2 := by
  rw [declarators_eq] at h
  obtain ⟨⟨statement, i⟩, hstatement, hx⟩ := List.mem_flatMap.1 h
  obtain ⟨⟨r, j⟩, hr, rfl⟩ := List.mem_map.1 hx
  rw [List.mem_zipIdx_iff_getElem?] at hstatement hr
  cases statement with
  | none => cases hr
  | some d => exact ⟨d, hstatement, hr⟩

section Bindings

variable (p : Program)

/-- The binding of a declarator. -/
def bindingAt (x : Nat × Nat × Span) : Binding :=
  let symbols := (Symbol.ofItems p.items).map (place ((declarators p.statements).map (·.2.2)))
  ⟨x.1, x.2.1, x.2.2, declaredIn x.2.2 symbols, usedIn (some x.2.2) symbols⟩

theorem bindings_eq : (ofProgram p).bindings = (declarators p.statements).map (bindingAt p) := rfl

variable {p}

/-- Each declarator of a statement is flagged by whether its binding is live. -/
theorem zip_flags {i : Nat} {d : Declaration} (h : p.statements[i]? = some (some d)) :
    d.declarators.zip ((ofProgram p).flags i) = d.declarators.zipIdx.map fun x =>
      (x.1, (bindingAt p (i, x.2, x.1)).declares (ofProgram p).reached) := by
  have hflags : (ofProgram p).flags i = d.declarators.zipIdx.map fun x =>
      (bindingAt p (i, x.2, x.1)).declares (ofProgram p).reached := by
    rw [flags, bindings_eq, List.filter_map]
    change (((declarators p.statements).filter (·.1 == i)).map (bindingAt p)).map _ = _
    rw [filter_declarators h, rowOf, List.map_map, List.map_map]
    rfl
  calc d.declarators.zip ((ofProgram p).flags i)
      = (d.declarators.zipIdx.map Prod.fst).zip (d.declarators.zipIdx.map fun x =>
          (bindingAt p (i, x.2, x.1)).declares (ofProgram p).reached) := by
        rw [List.zipIdx_map_fst, hflags]
    _ = _ := List.zip_map'

/-- The names of a binding are those of the symbols that its declarator owns. -/
theorem mem_names {b : Binding} (hb : b ∈ (ofProgram p).bindings) {name : String} :
    name ∈ b.names ↔ ∃ y ∈ Symbol.ofItems p.items,
      y.name = name ∧ owner (HasPlaces.places p) y.span = some b.span := by
  rw [bindings_eq] at hb
  obtain ⟨x, -, rfl⟩ := List.mem_map.1 hb
  have hranges : (declarators p.statements).map (·.2.2) = HasPlaces.places p :=
    map_span_declarators _
  rw [← hranges]
  exact mem_declaredIn_place

theorem span_mem_places {b : Binding} (hb : b ∈ (ofProgram p).bindings) :
    b.span ∈ HasPlaces.places p := by
  rw [bindings_eq] at hb
  obtain ⟨x, hx, rfl⟩ := List.mem_map.1 hb
  have hranges : (declarators p.statements).map (·.2.2) = HasPlaces.places p :=
    map_span_declarators _
  exact hranges ▸ List.mem_map_of_mem hx

end Bindings

end Liveness

/-! ## What pruning keeps -/

theorem infix_intercalate (sep : List Char) {s : List Char} : ∀ {xs : List (List Char)}, s ∈ xs →
    s <:+: sep.intercalate xs
  | [x], h => by
    rw [List.mem_singleton.1 h]
    simp
  | x :: y :: xs, h => by
    rw [List.intercalate_cons_cons]
    rcases List.mem_cons.1 h with rfl | h
    · exact ⟨[], sep ++ sep.intercalate (y :: xs), by simp⟩
    · exact (infix_intercalate sep h).trans (List.suffix_append _ _).isInfix

/-- A declarator that is flagged is written again if its declaration changes. -/
theorem infix_of_editOf? {source : List Char} {d : Declaration} {flags : List Bool} {e : Edit}
    {r : Span} (hr : (r, true) ∈ d.declarators.zip flags)
    (he : editOf? source d flags = some e) :
    Text.slice source r.start r.stop <:+: e.text := by
  have hany : flags.any id = true := List.any_eq_true.2 ⟨true, (List.of_mem_zip hr).2, rfl⟩
  unfold editOf? at he
  by_cases hall : flags.all id = true
  · rw [if_pos hall] at he
    cases he
  · rw [if_neg hall, if_pos hany] at he
    obtain rfl := Option.some.inj he
    have hkept : String.ofList (Text.slice source r.start r.stop)
        ∈ (d.declarators.zip flags).filterMap fun x =>
          if x.2 then some (String.ofList (Text.slice source x.1.start x.1.stop)) else none :=
      List.mem_filterMap.2 ⟨(r, true), hr, rfl⟩
    have hmem := List.mem_map_of_mem (f := String.toList) hkept
    rw [String.toList_ofList] at hmem
    simp only [String.toList_append, String.toList_intercalate]
    exact (infix_intercalate ", ".toList hmem).trans (List.infix_append _ _ _)

theorem infix_applyEdits {e : Edit} : ∀ {es : List Edit} {offset : Nat} {rest : List Char},
    e ∈ es → e.text <:+: applyEdits offset rest es
  | e' :: es, offset, rest, h => by
    rw [applyEdits]
    rcases List.mem_cons.1 h with rfl | h
    · exact ⟨_, _, rfl⟩
    · exact (infix_applyEdits h).trans (List.suffix_append _ _).isInfix

/-- Pruning leaves the statement of a binding as it is, or writes its declarator again. -/
def Binding.Stays (source : String) (p : Program) (b : Binding) : Prop :=
  ∃ d, p.statements[b.statement]? = some (some d) ∧ d.declarators[b.declarator]? = some b.span
    ∧ (editOf? source.toList d ((Liveness.ofProgram p).flags b.statement) = none
      ∨ ∀ out, prune source = .ok out →
        Text.slice source.toList b.span.start b.span.stop <:+: out.toList)

/-- A binding that is marked stays, with its text: its statement is kept, or written anew with
it. -/
theorem Binding.stays_of_marked {source : String} {p : Program} (hp : parse source = .ok p)
    {b : Binding} (hb : b ∈ (Liveness.ofProgram p).marked) : b.Stays source p := by
  obtain ⟨hmem, hlive⟩ := hb
  rw [Liveness.bindings_eq] at hmem
  obtain ⟨⟨i, j, r⟩, hx, rfl⟩ := List.mem_map.1 hmem
  obtain ⟨d, hd, hr⟩ := Liveness.mem_declarators hx
  refine ⟨d, hd, hr, ?_⟩
  rcases hedit : editOf? source.toList d ((Liveness.ofProgram p).flags i) with _ | e
  · exact .inl hedit
  · refine .inr fun out hout => ?_
    have hflag : (r, true) ∈ d.declarators.zip ((Liveness.ofProgram p).flags i) := by
      rw [Liveness.zip_flags hd]
      exact List.mem_map.2 ⟨(r, j), List.mem_zipIdx_iff_getElem?.2 hr, by rw [hlive]⟩
    have hmem : e ∈ edits source.toList p :=
      List.mem_filterMap.2 ⟨(some d, i), List.mem_zipIdx_iff_getElem?.2 hd, hedit⟩
    rw [prune, hp] at hout
    obtain rfl := Except.ok.inj hout
    rw [String.toList_ofList]
    exact (infix_of_editOf? hflag hedit).trans (infix_applyEdits hmem)

/-- The first declaration of a name that a declarator holds gives the name to this declarator and
to no other. So if a seed or a live binding needs the name, the declarator is live and stays. -/
theorem live_of_needed {source : String} {p : Program} (hp : parse source = .ok p) {b : Binding}
    (hb : b ∈ (Liveness.ofProgram p).bindings) {name : String} {span : Span}
    (hfirst : Item.declaresFirst name span p.items = true) (hstart : b.span.start ≤ span.start)
    (hlt : span.start < span.stop) (hstop : span.stop ≤ b.span.stop) :
    (∀ c ∈ (Liveness.ofProgram p).bindings, name ∈ c.names ↔ c.span = b.span)
      ∧ ((name ∈ (Liveness.ofProgram p).seeds
          ∨ ∃ c ∈ (Liveness.ofProgram p).marked, name ∈ c.references) →
        b ∈ (Liveness.ofProgram p).marked ∧ b.Stays source p) := by
  obtain ⟨stop, hinOrder⟩ := Program.inOrder_places (parse_eq_ok.1 hp)
  have howner : Liveness.owner (HasPlaces.places p) span = some b.span :=
    Liveness.owner_of_inOrder hinOrder (Liveness.span_mem_places hb) hstart hlt hstop
  obtain ⟨⟨y, hy, hyname⟩, hhome⟩ := Symbol.home_of_first hfirst
  have hnames : ∀ c ∈ (Liveness.ofProgram p).bindings, name ∈ c.names ↔ c.span = b.span := by
    intro c hc
    rw [Liveness.mem_names hc]
    constructor
    · rintro ⟨y, hy, hyname, hyowner⟩
      rw [hhome y hy hyname, howner] at hyowner
      exact (Option.some.inj hyowner).symm
    · intro hspan
      exact ⟨y, hy, hyname, by rw [hhome y hy hyname, howner, hspan]⟩
  have hclosed := (Liveness.ofProgram p).marked_closed
  have hname : name ∈ b.names := (hnames b hb).2 rfl
  refine ⟨hnames, fun hneeded => ?_⟩
  have hmarked : b ∈ (Liveness.ofProgram p).marked := by
    rcases hneeded with hseed | ⟨c, hc, huse⟩
    · exact hclosed.seeds b hb name hname hseed
    · exact hclosed.uses c hc name huse b hb hname
  exact ⟨hmarked, Binding.stays_of_marked hp hmarked⟩

section Redeclared

/-- A name that two declarations declare. -/
def redeclared : Reading :=
  ⟨[some ⟨.var, ⟨0, 10⟩, [⟨4, 9⟩]⟩, some ⟨.var, ⟨11, 21⟩, [⟨15, 20⟩]⟩, none],
   [⟨"x", ⟨4, 5⟩, .ofValue, [⟨26, 27⟩]⟩]⟩

theorem redeclared_of : redeclared.Of "var x = 1;\nvar x = 2;\nuse(x);\n" :=
  ⟨by decide +kernel, by decide⟩

theorem reached_redeclared : redeclared.liveness.reached = ["x"] := by
  rw [Liveness.reached, Liveness.reach, dif_neg (by decide)]
  show ["x"] ++ Liveness.reach [] _ = _
  rw [Liveness.reach, dif_pos (by decide)]
  rfl

theorem live_of_needed_redeclared : ∃ p b, parse "var x = 1;\nvar x = 2;\nuse(x);\n" = .ok p
    ∧ Item.declaresFirst "x" ⟨4, 5⟩ p.items = true ∧ b.span = ⟨4, 9⟩
    ∧ b ∈ (Liveness.ofProgram p).marked ∧ b.Stays "var x = 1;\nvar x = 2;\nuse(x);\n" p := by
  obtain ⟨p, hp, -, hl⟩ := redeclared_of.exists_parse
  have hfirst : (parse "var x = 1;\nvar x = 2;\nuse(x);\n").map
      (fun p => Item.declaresFirst "x" ⟨4, 5⟩ p.items) = .ok true := by decide +kernel
  rw [hp] at hfirst
  have hfirst := Except.ok.inj hfirst
  have hb : ⟨0, 0, ⟨4, 9⟩, ["x"], []⟩ ∈ (Liveness.ofProgram p).bindings := by rw [hl]; decide
  have hseed : "x" ∈ (Liveness.ofProgram p).seeds := by rw [hl]; decide
  obtain ⟨-, hlive⟩ := live_of_needed hp hb hfirst (by decide) (by decide) (by decide)
  obtain ⟨hmarked, hstays⟩ := hlive (.inl hseed)
  exact ⟨p, _, hp, hfirst, rfl, hmarked, hstays⟩

/-- The second declarator binds a name that is used outside of all bindings, and is cut. -/
theorem prune_redeclared :
    prune "var x = 1;\nvar x = 2;\nuse(x);\n" = .ok "var x = 1;\nuse(x);\n"
      ∧ ∃ p b, parse "var x = 1;\nvar x = 2;\nuse(x);\n" = .ok p
        ∧ b ∈ (Liveness.ofProgram p).bindings ∧ b.span = ⟨15, 20⟩
        ∧ p.items.any (Item.declaresAt "x" ⟨15, 16⟩) = true
        ∧ "x" ∈ (Liveness.ofProgram p).seeds ∧ b ∉ (Liveness.ofProgram p).marked := by
  constructor
  · rw [redeclared_of.prune_eq reached_redeclared]
    decide +kernel
  · obtain ⟨p, hp, -, hl⟩ := redeclared_of.exists_parse
    have hbinds : (parse "var x = 1;\nvar x = 2;\nuse(x);\n").map
        (fun p => p.items.any (Item.declaresAt "x" ⟨15, 16⟩)) = .ok true := by decide +kernel
    rw [hp] at hbinds
    refine ⟨p, ⟨1, 0, ⟨15, 20⟩, [], []⟩, hp, by rw [hl]; decide, rfl, Except.ok.inj hbinds,
      by rw [hl]; decide, ?_⟩
    rintro ⟨-, hlive⟩
    cases hlive

end Redeclared

end ZodGen.Script
