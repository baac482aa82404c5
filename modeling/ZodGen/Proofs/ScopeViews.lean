import Mathlib.Data.List.TakeDrop
import Mathlib.Data.List.TakeWhile
import ZodGen.Proofs.Members
import ZodGen.Script.Symbol

/-!
# What scopes know of a name

While the items of a script are read, the scope at hand lies in others. `Shows` says what they know
of one name: the outermost scope knows it as some symbol, and the blocks from which a declaration
is hoisted know it the same way or not at all. Reading items that declare nothing for the outermost
scope keeps this, inside of functions (`Shows.readAll_inside`) and in blocks alike
(`Shows.readAll_around`).
-/

namespace ZodGen

theorem Assoc.get?_filter_ne {κ α : Type} [DecidableEq κ] {key other : κ} (h : other ≠ key) :
    ∀ ms : List (κ × α), get? other (ms.filter (·.1 != key)) = get? other ms
  | [] => rfl
  | (k, v) :: ms => by
    have ih := get?_filter_ne h ms
    by_cases hk : k = key
    · subst hk
      simp [get?, Ne.symm h, ih]
    · simp [get?, hk, ih]

namespace Script

namespace Item

mutual

/-- Whether an item holds a declaration as asked for. The test is told whether a function lies
around the declaration. -/
def hasDeclaration (test : Bool → String → Reach → Bool) (deep : Bool) : Item → Bool
  | .declare name _ _ reach => test deep name reach
  | .use _ _ _ => false
  | .scope kind header body =>
    haveDeclaration test (deep || kind == .body) header ||
      haveDeclaration test (deep || kind == .body) body

def haveDeclaration (test : Bool → String → Reach → Bool) (deep : Bool) : List Item → Bool
  | [] => false
  | item :: items => hasDeclaration test deep item || haveDeclaration test deep items

end

/-- A declaration that lives outside of the blocks around it. -/
def leavesBlocks (name : String) (deep : Bool) (declared : String) (reach : Reach) : Bool :=
  declared == name && reach == .hoisted && !deep

/-- A declaration that lives in one of the blocks around it. -/
def staysInBlocks (name : String) (deep : Bool) (declared : String) (reach : Reach) : Bool :=
  declared == name && (reach == .conditional || (reach == .block && !deep))

/-- Whether blocks declare a name outside of themselves. -/
def hoists (name : String) (item : Item) : Bool := item.hasDeclaration (leavesBlocks name) false

/-- Whether blocks declare a name for themselves. -/
def shields (name : String) (item : Item) : Bool := item.hasDeclaration (staysInBlocks name) false

/-- Whether an item of the outermost scope declares a name there. -/
def declaresOut (name : String) : Item → Bool
  | .declare declared _ _ _ => declared == name
  | item => item.hoists name

/-- Whether an item of the outermost scope may take a name elsewhere: some block in it declares the
name for itself, and some block outside of itself. -/
def moves (name : String) : Item → Bool
  | .scope kind header body =>
    (Item.scope kind header body).hoists name && (Item.scope kind header body).shields name
  | _ => false

end Item

/-! ## Frames -/

namespace Frame

variable (f : Frame) {name other : String} (id : Nat)

theorem find?_bind_self : (f.bind name id).find? name = some id := by
  simp [find?, bind, Assoc.get?_set_self]

theorem find?_bind_of_ne (h : other ≠ name) : (f.bind name id).find? other = f.find? other := by
  simp [find?, bind, Assoc.get?_set_of_ne h]

theorem find?_unbind_of_ne (h : other ≠ name) : (f.unbind name).find? other = f.find? other := by
  simp [find?, unbind, Assoc.get?_filter_ne h]

theorem find?_hoist_of_ne (h : other ≠ name) : (f.hoist name id).find? other = f.find? other := by
  simp [find?, hoist, Assoc.get?, Ne.symm h]

theorem find?_hoist_self (h : f.find? name = none ∨ f.find? name = some id) :
    (f.hoist name id).find? name = some id := by
  simp only [find?, hoist, Assoc.get?, if_true] at h ⊢
  cases hb : Assoc.get? name f.bindings <;> simp_all

theorem find?_hoist_unbind : ((f.unbind name).hoist name id).find? name = some id := by
  have hnone : Assoc.get? name (f.bindings.filter (·.1 != name)) = none :=
    Assoc.get?_eq_none_of_notMem (by simp [Assoc.keys])
  simp [find?, hoist, unbind, Assoc.get?, hnone]

/-- What a scope shows of a name: the kind of the scope and the symbol the name would join. -/
def view (name : String) : ScopeKind × Option Nat := (f.kind, f.find? name)

end Frame

theorem view_unbindFirst_of_ne {name other : String} (h : other ≠ name) : ∀ fs : List Frame,
    (unbindFirst name fs).map (·.view other) = fs.map (·.view other)
  | [] => rfl
  | f :: fs => by
    have ih := view_unbindFirst_of_ne h fs
    rw [unbindFirst]
    split
    · simp [Frame.view, f.find?_unbind_of_ne h]
      rfl
    · simp [ih]

theorem mem_unbindFirst {name : String} {f : Frame} : ∀ {fs : List Frame},
    f ∈ unbindFirst name fs → f ∈ fs ∨ ∃ g ∈ fs, f = g.unbind name
  | [], h => absurd h List.not_mem_nil
  | g :: fs, h => by
    rw [unbindFirst] at h
    split_ifs at h
    · obtain rfl | h := List.mem_cons.1 h
      · exact .inr ⟨g, List.mem_cons_self, rfl⟩
      · exact .inl (List.mem_cons_of_mem _ h)
    · obtain rfl | h := List.mem_cons.1 h
      · exact .inl List.mem_cons_self
      · obtain h | ⟨g, hg, rfl⟩ := mem_unbindFirst h
        · exact .inl (List.mem_cons_of_mem _ h)
        · exact .inr ⟨g, List.mem_cons_of_mem _ hg, rfl⟩

namespace Resolution

/-- The scope at hand and those around it. -/
def frames (r : Resolution) : List Frame := r.scope :: r.outer

theorem ofFrames_eq (symbols : Array Symbol) (r : Resolution) {fs : List Frame} (h : fs ≠ []) :
    (ofFrames symbols r fs).frames = fs ∧ (ofFrames symbols r fs).symbols = symbols := by
  cases fs with
  | nil => exact absurd rfl h
  | cons f fs => exact ⟨rfl, rfl⟩

/-! ## Declarations -/

section Declare

variable {name : String} (span : Span) (meaning : Meaning)

theorem view_declareIn_of_ne {other : String} (h : other ≠ name) (symbols : Array Symbol)
    (f : Frame) : (declareIn symbols f name span meaning).2.1.view other = f.view other := by
  unfold declareIn
  split
  · rfl
  · simp [Frame.view, f.find?_bind_of_ne _ h]
    rfl

theorem kind_declareIn (symbols : Array Symbol) (f : Frame) :
    (declareIn symbols f name span meaning).2.1.kind = f.kind := by
  unfold declareIn
  split <;> rfl

theorem kind_unbindFirst : ∀ fs : List Frame,
    (unbindFirst name fs).map (·.kind) = fs.map (·.kind)
  | [] => rfl
  | f :: fs => by
    rw [unbindFirst]
    split
    · rfl
    · simp [kind_unbindFirst fs]

variable (name) in
theorem kind_declareHoisted (symbols : Array Symbol) (passed : List Frame) (target : Frame) :
    (declareHoisted symbols passed target name span meaning).2.1.map (·.kind)
        = passed.map (·.kind)
      ∧ (declareHoisted symbols passed target name span meaning).2.2.kind = target.kind := by
  unfold declareHoisted
  split
  · refine ⟨?_, rfl⟩
    rw [List.map_map]
    exact kind_unbindFirst passed
  · refine ⟨?_, kind_declareIn span meaning symbols target⟩
    rw [List.map_map]
    rfl

theorem view_declareHoisted_of_ne {other : String} (h : other ≠ name) (symbols : Array Symbol)
    (passed : List Frame) (target : Frame) :
    (declareHoisted symbols passed target name span meaning).2.1.map (·.view other)
        = passed.map (·.view other)
      ∧ (declareHoisted symbols passed target name span meaning).2.2.view other
        = target.view other := by
  have hhoist : ∀ (id : Nat) (fs : List Frame),
      (fs.map (·.hoist name id)).map (·.view other) = fs.map (·.view other) := by
    intro id fs
    rw [List.map_map]
    refine List.map_congr_left fun f _ => ?_
    simp [Frame.view, f.find?_hoist_of_ne id h]
    rfl
  unfold declareHoisted
  split
  · refine ⟨by rw [hhoist, view_unbindFirst_of_ne h], ?_⟩
    simp [Frame.view, target.find?_bind_of_ne _ h]
    rfl
  · exact ⟨hhoist _ passed, view_declareIn_of_ne span meaning h symbols target⟩

/-- Where a name is known by one symbol or not at all, a hoisted one joins that symbol. -/
theorem find?_declareHoisted (symbols : Array Symbol) {passed : List Frame} {target : Frame}
    {id : Nat} (hpassed : ∀ f ∈ passed, f.find? name = none ∨ f.find? name = some id)
    (htarget : target.find? name = some id) :
    (∀ f ∈ (declareHoisted symbols passed target name span meaning).2.1, f.find? name = some id)
      ∧ (declareHoisted symbols passed target name span meaning).2.2.find? name = some id := by
  unfold declareHoisted
  cases hfound : passed.findSome? (·.find? name) with
  | none =>
    simp only [declareIn, htarget]
    refine ⟨fun f hf => ?_, trivial⟩
    obtain ⟨g, hg, rfl⟩ := List.mem_map.1 hf
    exact g.find?_hoist_self id (hpassed g hg)
  | some found =>
    obtain ⟨g, hg, hfind⟩ := List.exists_of_findSome?_eq_some hfound
    obtain rfl : found = id := by
      obtain hnone | hsome := hpassed g hg
      · simp [hnone] at hfind
      · exact Option.some.inj (hfind.symm.trans hsome)
    refine ⟨fun f hf => ?_, target.find?_bind_self found⟩
    obtain ⟨e, he, rfl⟩ := List.mem_map.1 hf
    obtain he | ⟨g, -, rfl⟩ := mem_unbindFirst he
    · exact e.find?_hoist_self found (hpassed e he)
    · exact g.find?_hoist_unbind found

theorem exists_first_kind {kind : ScopeKind} {fs : List Frame} (h : kind ∈ fs.map (·.kind)) :
    ∃ passed target rest, fs = passed ++ target :: rest ∧ (∀ f ∈ passed, f.kind ≠ kind)
      ∧ target.kind = kind := by
  obtain ⟨front, back, hsplit, hfront⟩ := List.eq_append_cons_of_mem h
  obtain ⟨passed, back, rfl, rfl, hback⟩ := List.map_eq_append_iff.1 hsplit
  obtain ⟨target, rest, rfl, htarget, -⟩ := List.map_eq_cons_iff.1 hback
  refine ⟨passed, target, rest, rfl, fun f hf hkind => hfront ?_, htarget⟩
  exact hkind ▸ List.mem_map_of_mem (f := Frame.kind) hf

theorem span_kind {r : Resolution} {kind : ScopeKind} {passed rest : List Frame} {target : Frame}
    (hframes : r.frames = passed ++ target :: rest) (hpassed : ∀ f ∈ passed, f.kind ≠ kind)
    (htarget : target.kind = kind) :
    (r.scope :: r.outer).span (·.kind != kind) = (passed, target :: rest) := by
  have hall : ∀ f ∈ passed, (f.kind != kind) = true := by simpa using hpassed
  rw [List.span_eq_takeWhile_dropWhile]
  show (List.takeWhile _ r.frames, List.dropWhile _ r.frames) = _
  rw [hframes, List.takeWhile_append_of_pos hall, List.dropWhile_append_of_pos hall]
  simp [htarget]

theorem span_kind_of_notMem {r : Resolution} {kind : ScopeKind}
    (h : kind ∉ r.frames.map (·.kind)) :
    (r.scope :: r.outer).span (·.kind != kind) = (r.frames, []) := by
  have hall : ∀ f ∈ r.frames, (f.kind != kind) = true := by
    intro f hf
    simpa using fun hkind : f.kind = kind => h (hkind ▸ List.mem_map_of_mem (f := Frame.kind) hf)
  rw [List.span_eq_takeWhile_dropWhile]
  show (List.takeWhile _ r.frames, List.dropWhile _ r.frames) = _
  rw [List.takeWhile_eq_self_iff.2 hall, List.dropWhile_eq_nil_iff.2 hall]

theorem declare_hoisted_of_notMem {r : Resolution} (h : .body ∉ r.frames.map (·.kind)) :
    r.declare name span meaning .hoisted = r := by
  simp only [declare, span_kind_of_notMem h]

theorem declare_conditional_of_notMem {r : Resolution}
    (h : .conditional ∉ r.frames.map (·.kind)) :
    r.declare name span meaning .conditional = r.declare name span meaning .block := by
  simp only [declare, span_kind_of_notMem h]

theorem frames_declare_block (r : Resolution) : (r.declare name span meaning .block).frames
    = (declareIn r.symbols r.scope name span meaning).2.1 :: r.outer := rfl

variable (name) in
/-- A hoisted name goes to the innermost function around it, or to the script. -/
theorem declare_hoisted_eq {r : Resolution} {passed rest : List Frame} {target : Frame}
    (hframes : r.frames = passed ++ target :: rest) (hpassed : ∀ f ∈ passed, f.kind ≠ .body)
    (htarget : target.kind = .body) :
    (r.declare name span meaning .hoisted).frames
        = (declareHoisted r.symbols passed target name span meaning).2.1
          ++ (declareHoisted r.symbols passed target name span meaning).2.2 :: rest
      ∧ (r.declare name span meaning .hoisted).symbols
        = (declareHoisted r.symbols passed target name span meaning).1 := by
  simp only [declare, span_kind hframes hpassed htarget]
  exact ofFrames_eq _ _ (by simp)

variable (name) in
/-- The name of an inferred type goes to the innermost conditional type around it. -/
theorem declare_conditional_eq {r : Resolution} {passed rest : List Frame} {target : Frame}
    (hframes : r.frames = passed ++ target :: rest)
    (hpassed : ∀ f ∈ passed, f.kind ≠ .conditional) (htarget : target.kind = .conditional) :
    (r.declare name span meaning .conditional).frames
        = passed ++ (declareIn r.symbols target name span meaning).2.1 :: rest
      ∧ (r.declare name span meaning .conditional).symbols
        = (declareIn r.symbols target name span meaning).1 := by
  simp only [declare, span_kind hframes hpassed htarget]
  exact ofFrames_eq _ _ (by simp)

variable (name) in
/-- What a declaration does: nothing, or it declares the name in one of the scopes, or it takes the
name out to a scope and leaves it known in the scopes on the way, which are no functions. -/
theorem declare_cases (r : Resolution) (reach : Reach) :
    r.declare name span meaning reach = r
      ∨ (∃ passed target rest, r.frames = passed ++ target :: rest
        ∧ (r.declare name span meaning reach).frames
          = passed ++ (declareIn r.symbols target name span meaning).2.1 :: rest
        ∧ (r.declare name span meaning reach).symbols
          = (declareIn r.symbols target name span meaning).1)
      ∨ ∃ passed target rest, r.frames = passed ++ target :: rest
        ∧ (∀ f ∈ passed, f.kind ≠ .body)
        ∧ (r.declare name span meaning reach).frames
          = (declareHoisted r.symbols passed target name span meaning).2.1
            ++ (declareHoisted r.symbols passed target name span meaning).2.2 :: rest
        ∧ (r.declare name span meaning reach).symbols
          = (declareHoisted r.symbols passed target name span meaning).1 := by
  cases reach with
  | block => exact .inr (.inl ⟨[], r.scope, r.outer, rfl, rfl, rfl⟩)
  | hoisted =>
    by_cases hbody : .body ∈ r.frames.map (·.kind)
    · obtain ⟨passed, target, rest, hframes, hpassed, htarget⟩ := exists_first_kind hbody
      obtain ⟨hdeclared, hsymbols⟩ := declare_hoisted_eq name span meaning hframes hpassed htarget
      exact .inr (.inr ⟨passed, target, rest, hframes, hpassed, hdeclared, hsymbols⟩)
    · exact .inl (declare_hoisted_of_notMem span meaning hbody)
  | conditional =>
    refine .inr (.inl ?_)
    by_cases hkind : .conditional ∈ r.frames.map (·.kind)
    · obtain ⟨passed, target, rest, hframes, hpassed, htarget⟩ := exists_first_kind hkind
      obtain ⟨hdeclared, hsymbols⟩ :=
        declare_conditional_eq name span meaning hframes hpassed htarget
      exact ⟨passed, target, rest, hframes, hdeclared, hsymbols⟩
    · rw [declare_conditional_of_notMem span meaning hkind]
      exact ⟨[], r.scope, r.outer, rfl, rfl, rfl⟩

end Declare

/-! ## What the scopes show of a name -/

/-- The outermost scope knows the name as `v`. Around the scopes at hand, of the kinds `inside`,
come others of the kinds `around`, from which hoisted names go on to the outermost scope. These know
the name as `v` or not at all. -/
def Shows (name : String) (v : Option Nat) (inside around : List ScopeKind) (frames : List Frame) :
    Prop :=
  ∃ fs gs root, frames = fs ++ (gs ++ [root]) ∧ fs.map (·.kind) = inside
    ∧ gs.map (·.kind) = around
    ∧ (∀ g ∈ gs, g.kind ≠ .body ∧ (g.find? name = none ∨ g.find? name = v))
    ∧ root.kind = .body ∧ root.find? name = v

section Shows

variable {name : String} {v : Option Nat} {inside around : List ScopeKind} {r r' : Resolution}

theorem kind_of_view {fs gs : List Frame} (h : fs.map (·.view name) = gs.map (·.view name)) :
    fs.map (·.kind) = gs.map (·.kind) := by
  have := congrArg (List.map Prod.fst) h
  rwa [List.map_map, List.map_map] at this

theorem Shows.congr {frames frames' : List Frame} (h : Shows name v inside around frames)
    (hviews : frames'.map (·.view name) = frames.map (·.view name)) :
    Shows name v inside around frames' := by
  obtain ⟨fs, gs, root, rfl, rfl, rfl, hgs, hkind, hroot⟩ := h
  rw [List.map_append, List.map_append, List.map_singleton] at hviews
  obtain ⟨fs', back, hframes', hfs', hback⟩ := List.map_eq_append_iff.1 hviews
  obtain ⟨gs', last, rfl, hgs', hlast⟩ := List.map_eq_append_iff.1 hback
  obtain ⟨root', rfl, hroot'⟩ := List.map_eq_singleton_iff.1 hlast
  simp only [Frame.view, Prod.mk.injEq] at hroot'
  refine ⟨fs', gs', root', hframes', kind_of_view hfs', kind_of_view hgs', ?_,
    hroot'.1.trans hkind, hroot'.2.trans hroot⟩
  intro g' hg'
  obtain ⟨g, hg, hview⟩ := List.mem_map.1 (hgs' ▸ List.mem_map_of_mem hg')
  simp only [Frame.view, Prod.mk.injEq] at hview
  rw [← hview.1, ← hview.2]
  exact hgs g hg

/-- A declaration changes nothing about other names, in any scope. -/
theorem views_declare_of_ne {other : String} (h : name ≠ other) (span : Span) (meaning : Meaning)
    (reach : Reach) : (r.declare other span meaning reach).frames.map (·.view name)
      = r.frames.map (·.view name) := by
  have hblock : (r.declare other span meaning .block).frames.map (·.view name)
      = r.frames.map (·.view name) := by
    simp only [frames_declare_block, List.map_cons, view_declareIn_of_ne span meaning h]
    rfl
  cases reach with
  | block => exact hblock
  | hoisted =>
    by_cases hbody : .body ∈ r.frames.map (·.kind)
    · obtain ⟨passed, target, rest, hframes, hpassed, htarget⟩ := exists_first_kind hbody
      obtain ⟨hviews, hview⟩ := view_declareHoisted_of_ne span meaning h r.symbols passed target
      rw [(declare_hoisted_eq _ span meaning hframes hpassed htarget).1, hframes]
      simp only [List.map_append, List.map_cons, hviews, hview]
    · rw [declare_hoisted_of_notMem span meaning hbody]
  | conditional =>
    by_cases hkind : .conditional ∈ r.frames.map (·.kind)
    · obtain ⟨passed, target, rest, hframes, hpassed, htarget⟩ := exists_first_kind hkind
      rw [(declare_conditional_eq _ span meaning hframes hpassed htarget).1, hframes]
      simp only [List.map_append, List.map_cons, view_declareIn_of_ne span meaning h]
    · rw [declare_conditional_of_notMem span meaning hkind, hblock]

variable (span : Span) (meaning : Meaning)

/-- A hoisted name stays in a function at hand. -/
theorem Shows.declare_hoisted_inside (h : Shows name v inside around r.frames)
    (hbody : .body ∈ inside) :
    Shows name v inside around (r.declare name span meaning .hoisted).frames := by
  obtain ⟨fs, gs, root, hframes, rfl, haround, hrest⟩ := h
  obtain ⟨passed, target, rest, rfl, hpassed, htarget⟩ := exists_first_kind hbody
  rw [List.append_assoc, List.cons_append] at hframes
  obtain ⟨hkinds, hkind⟩ := kind_declareHoisted name span meaning r.symbols passed target
  obtain ⟨hdeclared, -⟩ := declare_hoisted_eq name span meaning hframes hpassed htarget
  rw [← List.cons_append, ← List.append_assoc] at hdeclared
  refine ⟨_, gs, root, hdeclared, ?_, haround, hrest⟩
  simp only [List.map_append, List.map_cons, hkinds, hkind]

/-- A name of the scope at hand is none of the outermost scope. -/
theorem Shows.declare_block_inside (h : Shows name v inside around r.frames)
    (hinside : inside ≠ []) :
    Shows name v inside around (r.declare name span meaning .block).frames := by
  obtain ⟨fs, gs, root, hframes, rfl, haround, hrest⟩ := h
  cases fs with
  | nil => exact absurd rfl hinside
  | cons f fs =>
    rw [frames, List.cons_append, List.cons.injEq] at hframes
    refine ⟨(declareIn r.symbols r.scope name span meaning).2.1 :: fs, gs, root, ?_, ?_, haround,
      hrest⟩
    · rw [frames_declare_block, hframes.2]
      rfl
    · rw [List.map_cons, kind_declareIn, hframes.1, List.map_cons]

/-- A name of a conditional type is none of the outermost scope. -/
theorem Shows.declare_conditional_inside (h : Shows name v inside around r.frames)
    (hinside : inside ≠ []) (haround : .conditional ∉ around) :
    Shows name v inside around (r.declare name span meaning .conditional).frames := by
  by_cases hkind : .conditional ∈ inside
  · obtain ⟨fs, gs, root, hframes, rfl, hgs, hrest⟩ := h
    obtain ⟨passed, target, rest, rfl, hpassed, htarget⟩ := exists_first_kind hkind
    rw [List.append_assoc, List.cons_append] at hframes
    obtain ⟨hdeclared, -⟩ := declare_conditional_eq name span meaning hframes hpassed htarget
    rw [← List.cons_append, ← List.append_assoc] at hdeclared
    refine ⟨_, gs, root, hdeclared, ?_, hgs, hrest⟩
    simp only [List.map_append, List.map_cons, kind_declareIn]
  · rw [declare_conditional_of_notMem]
    · exact h.declare_block_inside span meaning hinside
    · obtain ⟨fs, gs, root, hframes, rfl, rfl, hgs, hroot, -⟩ := h
      simp [hframes, hroot, hkind, haround]

/-- A name that the outermost scope knows is joined by a hoisted one. -/
theorem Shows.declare_hoisted_around {id : Nat} (h : Shows name (some id) [] around r.frames) :
    Shows name (some id) [] around (r.declare name span meaning .hoisted).frames := by
  obtain ⟨fs, gs, root, hframes, hfs, rfl, hgs, hkind, hroot⟩ := h
  obtain rfl : fs = [] := List.map_eq_nil_iff.1 hfs
  rw [List.nil_append] at hframes
  obtain ⟨hdeclared, -⟩ :=
    declare_hoisted_eq name span meaning hframes (fun g hg => (hgs g hg).1) hkind
  obtain ⟨hkinds, hkind'⟩ := kind_declareHoisted name span meaning r.symbols gs root
  obtain ⟨hpassed, htarget⟩ :=
    find?_declareHoisted span meaning r.symbols (fun g hg => (hgs g hg).2) hroot
  refine ⟨[], _, _, hdeclared, rfl, hkinds, fun f hf => ⟨fun hbody => ?_, .inr (hpassed f hf)⟩,
    hkind'.trans hkind, htarget⟩
  have hmem : .body ∈ gs.map (·.kind) := by
    rw [← hkinds, ← hbody]
    exact List.mem_map_of_mem hf
  obtain ⟨g, hg, hgkind⟩ := List.mem_map.1 hmem
  exact (hgs g hg).1 hgkind

/-! ## Scopes -/

theorem Shows.wait (h : Shows name v inside around r.frames) (ps : List Pending) :
    Shows name v inside around { r with scope := r.scope.wait ps : Resolution }.frames :=
  h.congr rfl

theorem Shows.settle (h : Shows name v inside around r.frames) :
    Shows name v inside around r.settle.frames := by
  refine h.congr ?_
  obtain ⟨symbols, scope, outer⟩ := r
  cases outer <;> rfl

theorem Shows.enter_inside (h : Shows name v inside around r.frames) (kind : ScopeKind) :
    Shows name v (kind :: inside) around (r.enter kind).frames := by
  obtain ⟨fs, gs, root, hframes, rfl, hrest⟩ := h
  exact ⟨{ kind } :: fs, gs, root, congrArg (_ :: ·) hframes, rfl, hrest⟩

/-- A scope that is entered from the outermost one knows no name yet. -/
theorem Shows.enter_around (h : Shows name v [] around r.frames) {kind : ScopeKind}
    (hkind : kind ≠ .body) : Shows name v [] (kind :: around) (r.enter kind).frames := by
  obtain ⟨fs, gs, root, hframes, hfs, rfl, hgs, hroot⟩ := h
  obtain rfl : fs = [] := List.map_eq_nil_iff.1 hfs
  refine ⟨[], { kind } :: gs, root, congrArg (_ :: ·) hframes, rfl, rfl, ?_, hroot⟩
  intro g hg
  obtain rfl | hg := List.mem_cons.1 hg
  · exact ⟨hkind, .inl rfl⟩
  · exact hgs g hg

theorem views_leave (h : r.outer ≠ []) :
    r.leave.frames.map (·.view name) = r.outer.map (·.view name) := by
  obtain ⟨symbols, scope, outer⟩ := r
  cases outer with
  | nil => exact absurd rfl h
  | cons f fs => rfl

theorem Shows.leave_inside {kind : ScopeKind} (h : Shows name v (kind :: inside) around r.frames) :
    Shows name v inside around r.leave.frames := by
  obtain ⟨fs, gs, root, hframes, hfs, hrest⟩ := h
  obtain ⟨f, fs, rfl, -, rfl⟩ := List.map_eq_cons_iff.1 hfs
  obtain ⟨-, houter⟩ := List.cons.inj hframes
  have hshows : Shows name v (fs.map (·.kind)) around r.outer := ⟨fs, gs, root, houter, rfl, hrest⟩
  exact hshows.congr (views_leave (by simp [houter]))

theorem Shows.leave_around {kind : ScopeKind} (h : Shows name v [] (kind :: around) r.frames) :
    Shows name v [] around r.leave.frames := by
  obtain ⟨fs, gs, root, hframes, hfs, hgs, hall, hroot⟩ := h
  obtain rfl : fs = [] := List.map_eq_nil_iff.1 hfs
  obtain ⟨g, gs, rfl, -, rfl⟩ := List.map_eq_cons_iff.1 hgs
  obtain ⟨-, houter⟩ := List.cons.inj hframes
  have hshows : Shows name v [] (gs.map (·.kind)) r.outer :=
    ⟨[], gs, root, houter, rfl, rfl, fun g hg => hall g (List.mem_cons_of_mem _ hg), hroot⟩
  exact hshows.congr (views_leave (by simp [houter]))

end Shows

/-! ## Runs -/

section Runs

variable {name : String}

mutual

/-- What no block declares outside of itself is as before in the outermost scope. -/
theorem Shows.read_inside {v : Option Nat} : ∀ (item : Item) {deep : Bool} {inside : List ScopeKind}
    {r : Resolution}, (deep = true → .body ∈ inside) →
    (inside ≠ [] ∨ item.declaresOut name = false) → Shows name v inside [] r.frames →
    item.hasDeclaration (Item.leavesBlocks name) deep = false →
    Shows name v inside [] (r.read item).frames
  | .declare other span meaning reach, deep, inside, r, hdeep, hinside, h, hitem => by
    rw [read]
    by_cases hname : name = other
    · subst hname
      have hne : inside ≠ [] := hinside.resolve_right (by simp [Item.declaresOut])
      cases reach with
      | block => exact h.declare_block_inside span meaning hne
      | conditional => exact h.declare_conditional_inside span meaning hne List.not_mem_nil
      | hoisted => exact h.declare_hoisted_inside span meaning (hdeep (by
          simpa [Item.hasDeclaration, Item.leavesBlocks] using hitem))
    · exact h.congr (views_declare_of_ne hname span meaning reach)
  | .use other span how, _, _, r, _, _, h, _ => h.wait _
  | .scope kind header body, deep, inside, r, hdeep, hinside, h, hitem => by
    rw [Item.hasDeclaration, Bool.or_eq_false_iff] at hitem
    have hdeep' : (deep || kind == .body) = true → .body ∈ kind :: inside := by
      intro hor
      rcases Bool.or_eq_true_iff.1 hor with hor | hor
      · exact List.mem_cons_of_mem _ (hdeep hor)
      · exact List.mem_cons.2 (.inl (beq_iff_eq.1 hor).symm)
    have hheader := Shows.readAll_inside header hdeep' (List.cons_ne_nil _ _)
      (h.enter_inside kind) hitem.1
    rw [read]
    exact (Shows.readAll_inside body hdeep' (List.cons_ne_nil _ _) hheader.settle
      hitem.2).leave_inside

theorem Shows.readAll_inside {v : Option Nat} : ∀ (items : List Item) {deep : Bool}
    {inside : List ScopeKind} {r : Resolution}, (deep = true → .body ∈ inside) → inside ≠ [] →
    Shows name v inside [] r.frames →
    Item.haveDeclaration (Item.leavesBlocks name) deep items = false →
    Shows name v inside [] (r.readAll items).frames
  | [], _, _, r, _, _, h, _ => h
  | item :: items, deep, inside, r, hdeep, hinside, h, hitems => by
    rw [Item.haveDeclaration, Bool.or_eq_false_iff] at hitems
    rw [readAll]
    exact Shows.readAll_inside items hdeep hinside
      (Shows.read_inside item hdeep (.inl hinside) h hitems.1) hitems.2

end

mutual

/-- What no block declares for itself is known by one symbol all around. -/
theorem Shows.read_around {id : Nat} : ∀ (item : Item) {deep : Bool}
    {inside around : List ScopeKind} {r : Resolution},
    (deep = true → .body ∈ inside) → (deep = false → inside = []) →
    Shows name (some id) inside around r.frames →
    item.hasDeclaration (Item.staysInBlocks name) deep = false →
    Shows name (some id) inside around (r.read item).frames
  | .declare other span meaning reach, deep, inside, around, r, hdeep, hflat, h, hitem => by
    rw [read]
    by_cases hname : name = other
    · subst hname
      cases deep with
      | true =>
        have hbody := hdeep rfl
        cases reach with
        | block => exact h.declare_block_inside span meaning (List.ne_nil_of_mem hbody)
        | conditional => simp [Item.hasDeclaration, Item.staysInBlocks] at hitem
        | hoisted => exact h.declare_hoisted_inside span meaning hbody
      | false =>
        obtain rfl := hflat rfl
        cases reach with
        | block => simp [Item.hasDeclaration, Item.staysInBlocks] at hitem
        | conditional => simp [Item.hasDeclaration, Item.staysInBlocks] at hitem
        | hoisted => exact h.declare_hoisted_around span meaning
    · exact h.congr (views_declare_of_ne hname span meaning reach)
  | .use other span how, _, _, _, r, _, _, h, _ => h.wait _
  | .scope kind header body, deep, inside, around, r, hdeep, hflat, h, hitem => by
    rw [Item.hasDeclaration, Bool.or_eq_false_iff] at hitem
    rw [read]
    by_cases hinside : (deep || kind == .body) = true
    · -- A function lies around what is in the scope, so the scope does not count as around.
      have hbody : .body ∈ kind :: inside := by
        rcases Bool.or_eq_true_iff.1 hinside with hor | hor
        · exact List.mem_cons_of_mem _ (hdeep hor)
        · exact List.mem_cons.2 (.inl (beq_iff_eq.1 hor).symm)
      rw [hinside] at hitem
      have hheader := Shows.readAll_around header (fun _ => hbody) (fun hd => by cases hd)
        (h.enter_inside kind) hitem.1
      exact (Shows.readAll_around body (fun _ => hbody) (fun hd => by cases hd) hheader.settle
        hitem.2).leave_inside
    · rw [Bool.not_eq_true, Bool.or_eq_false_iff] at hinside
      obtain ⟨rfl, hkind⟩ := hinside
      obtain rfl := hflat rfl
      rw [hkind] at hitem
      have hheader := Shows.readAll_around header (fun hd => by cases hd) (fun _ => rfl)
        (h.enter_around (beq_eq_false_iff_ne.1 hkind)) hitem.1
      exact (Shows.readAll_around body (fun hd => by cases hd) (fun _ => rfl) hheader.settle
        hitem.2).leave_around

theorem Shows.readAll_around {id : Nat} : ∀ (items : List Item) {deep : Bool}
    {inside around : List ScopeKind} {r : Resolution},
    (deep = true → .body ∈ inside) → (deep = false → inside = []) →
    Shows name (some id) inside around r.frames →
    Item.haveDeclaration (Item.staysInBlocks name) deep items = false →
    Shows name (some id) inside around (r.readAll items).frames
  | [], _, _, _, r, _, _, h, _ => h
  | item :: items, deep, inside, around, r, hdeep, hflat, h, hitems => by
    rw [Item.haveDeclaration, Bool.or_eq_false_iff] at hitems
    rw [readAll]
    exact Shows.readAll_around items hdeep hflat
      (Shows.read_around item hdeep hflat h hitems.1) hitems.2

end

end Runs

end Resolution

end Script

end ZodGen
