import ZodGen.Proofs.ScopeViews

/-!
# Where a name is at home

All declarations of a name that reach the outermost scope make one symbol. It is placed at the first
of them, unless a block takes it elsewhere: a hoisted declaration in a block that binds the name for
itself moves the block's own symbol out. So a name is at home at its first declaration as long as no
later block both binds it and hoists it (`Symbol.home_of_first`).
-/

namespace ZodGen

namespace Script

namespace Item

def declaresAt (name : String) (span : Span) : Item → Bool
  | .declare declared place _ _ => declared == name && place == span
  | _ => false

/-- Whether the first declaration of a name in the outermost scope stands at a place, and nothing
behind it takes the name elsewhere. -/
def declaresFirst (name : String) (span : Span) : List Item → Bool
  | [] => false
  | item :: items =>
    if item.declaresOut name then item.declaresAt name span && items.all (!·.moves name)
    else declaresFirst name span items

/-- Nothing in front of the first declaration declares the name in the outermost scope, and nothing
behind it moves the name. -/
theorem exists_split_of_declaresFirst {name : String} {span : Span} :
    ∀ {items : List Item}, declaresFirst name span items = true → ∃ front meaning reach back,
      items = front ++ .declare name span meaning reach :: back
        ∧ (∀ item ∈ front, item.declaresOut name = false)
        ∧ ∀ item ∈ back, item.moves name = false
  | item :: items, h => by
    rw [declaresFirst] at h
    cases hout : item.declaresOut name with
    | true =>
      rw [hout, if_pos rfl, Bool.and_eq_true] at h
      obtain ⟨hitem, hitems⟩ := h
      cases item with
      | declare declared place meaning reach =>
        simp only [declaresAt, Bool.and_eq_true, beq_iff_eq] at hitem
        obtain ⟨rfl, rfl⟩ := hitem
        exact ⟨[], meaning, reach, items, rfl, by simp, by simpa using hitems⟩
      | use | scope => cases hitem
    | false =>
      rw [hout, if_neg Bool.false_ne_true] at h
      obtain ⟨front, meaning, reach, back, rfl, hfront, hback⟩ := exists_split_of_declaresFirst h
      refine ⟨item :: front, meaning, reach, back, rfl, fun other hother => ?_, hback⟩
      rcases List.mem_cons.1 hother with rfl | hother
      · exact hout
      · exact hfront other hother

end Item

namespace Resolution

/-! ## Symbols -/

/-- Later symbols go on from earlier ones: a symbol keeps its name and its place. -/
def KeepsSymbols (a b : Array Symbol) : Prop :=
  ∀ (id : Nat) (x : Symbol), a[id]? = some x →
    ∃ y : Symbol, b[id]? = some y ∧ y.name = x.name ∧ y.span = x.span

namespace KeepsSymbols

variable {a b c : Array Symbol}

theorem refl (a : Array Symbol) : KeepsSymbols a a := fun _ x h => ⟨x, h, rfl, rfl⟩

theorem trans (hab : KeepsSymbols a b) (hbc : KeepsSymbols b c) : KeepsSymbols a c := by
  intro id x hx
  obtain ⟨y, hy, hname, hspan⟩ := hab id x hx
  obtain ⟨z, hz, hname', hspan'⟩ := hbc id y hy
  exact ⟨z, hz, hname'.trans hname, hspan'.trans hspan⟩

theorem push (a : Array Symbol) (y : Symbol) : KeepsSymbols a (a.push y) := by
  intro id x hx
  have hlt : id < a.size := (Array.getElem?_eq_some_iff.1 hx).1
  rw [Array.getElem?_push_lt hlt]
  exact ⟨x, hx ▸ (Array.getElem?_eq_getElem hlt).symm, rfl, rfl⟩

theorem modify (a : Array Symbol) (id : Nat) {f : Symbol → Symbol}
    (hf : ∀ x, (f x).name = x.name ∧ (f x).span = x.span) : KeepsSymbols a (a.modify id f) := by
  intro i x hx
  rw [Array.getElem?_modify]
  split_ifs
  · exact ⟨f x, by rw [hx]; rfl, hf x⟩
  · exact ⟨x, hx, rfl, rfl⟩

end KeepsSymbols

section Keeps

variable {name : String} (span : Span) (meaning : Meaning) (symbols : Array Symbol)

theorem keepsSymbols_declareIn (f : Frame) :
    KeepsSymbols symbols (declareIn symbols f name span meaning).1 := by
  unfold declareIn
  cases f.find? name with
  | none => exact KeepsSymbols.push symbols _
  | some id => exact KeepsSymbols.modify symbols id fun _ => ⟨rfl, rfl⟩

theorem keepsSymbols_declareHoisted (passed : List Frame) (target : Frame) :
    KeepsSymbols symbols (declareHoisted symbols passed target name span meaning).1 := by
  unfold declareHoisted
  cases passed.findSome? (·.find? name) with
  | none => exact keepsSymbols_declareIn span meaning symbols target
  | some id => exact KeepsSymbols.modify symbols id fun _ => ⟨rfl, rfl⟩

theorem keepsSymbols_lookUp (f : Frame) : ∀ (ps : List Pending) (symbols : Array Symbol),
    KeepsSymbols symbols (lookUp f ps symbols).1
  | [], symbols => KeepsSymbols.refl symbols
  | p :: ps, symbols => by
    rw [lookUp]
    cases meant? symbols f p with
    | none => exact keepsSymbols_lookUp f ps symbols
    | some id =>
      refine KeepsSymbols.trans ?_ (keepsSymbols_lookUp f ps _)
      exact KeepsSymbols.modify symbols id fun _ => ⟨rfl, rfl⟩

end Keeps

end Resolution

/-! ## Names of symbols -/

/-- A scope binds each name once, and to a symbol of that name. Functions let nothing through. -/
structure Frame.Named (symbols : Array Symbol) (f : Frame) : Prop where
  nodup : (Assoc.keys f.bindings).Nodup
  named : ∀ e ∈ f.bindings ++ f.hoisted, ∃ y : Symbol, symbols[e.2]? = some y ∧ y.name = e.1
  closed : f.kind = .body → f.hoisted = []

namespace Frame.Named

variable {symbols symbols' : Array Symbol} {f : Frame} {name : String} {id : Nat}

theorem mono (h : f.Named symbols) (hkeeps : Resolution.KeepsSymbols symbols symbols') :
    f.Named symbols' := by
  refine ⟨h.nodup, fun e he => ?_, h.closed⟩
  obtain ⟨x, hx, hname⟩ := h.named e he
  obtain ⟨y, hy, hname', -⟩ := hkeeps e.2 x hx
  exact ⟨y, hy, hname'.trans hname⟩

theorem find? (h : f.Named symbols) (hfind : f.find? name = some id) :
    ∃ y : Symbol, symbols[id]? = some y ∧ y.name = name := by
  refine h.named (name, id) (List.mem_append.2 ?_)
  rcases Option.or_eq_some_iff.1 hfind with hb | ⟨-, hh⟩
  · exact .inl (Assoc.mem_of_get? hb)
  · exact .inr (Assoc.mem_of_get? hh)

variable (hid : ∃ y : Symbol, symbols[id]? = some y ∧ y.name = name)

include hid

theorem bind (h : f.Named symbols) : (f.bind name id).Named symbols := by
  have hnodup : (Assoc.keys (Assoc.set name id f.bindings)).Nodup := Assoc.nodup_keys_set h.nodup
  refine ⟨hnodup, fun e he => ?_, h.closed⟩
  obtain he | he := List.mem_append.1 he
  · have hget : Assoc.get? e.1 (Assoc.set name id f.bindings) = some e.2 :=
      Assoc.get?_of_mem hnodup he
    by_cases hname : e.1 = name
    · rw [hname, Assoc.get?_set_self] at hget
      rwa [← Option.some.inj hget, hname]
    · rw [Assoc.get?_set_of_ne hname] at hget
      exact h.named e (List.mem_append_left _ (Assoc.mem_of_get? hget))
  · exact h.named e (List.mem_append_right _ he)

theorem hoist (h : f.Named symbols) (hkind : f.kind ≠ .body) : (f.hoist name id).Named symbols := by
  refine ⟨h.nodup, fun e he => ?_, fun hbody => absurd hbody hkind⟩
  obtain he | he := List.mem_append.1 he
  · exact h.named e (List.mem_append_left _ he)
  · obtain rfl | he := List.mem_cons.1 he
    · exact hid
    · exact h.named e (List.mem_append_right _ he)

omit hid in
theorem unbind (h : f.Named symbols) (name : String) : (f.unbind name).Named symbols := by
  refine ⟨h.nodup.sublist (List.filter_sublist.map _), fun e he => ?_, h.closed⟩
  obtain he | he := List.mem_append.1 he
  · exact h.named e (List.mem_append_left _ (List.mem_filter.1 he).1)
  · exact h.named e (List.mem_append_right _ he)

end Frame.Named

namespace Resolution

section Named

variable {name : String} (span : Span) (meaning : Meaning) {symbols : Array Symbol}

variable (name) in
/-- A symbol that a declaration gives has its name. -/
theorem named_declareIn {f : Frame} (h : f.Named symbols) :
    (declareIn symbols f name span meaning).2.1.Named (declareIn symbols f name span meaning).1
    ∧ ∃ y : Symbol, (declareIn symbols f name span meaning).1[(declareIn symbols f name span
        meaning).2.2]? = some y ∧ y.name = name := by
  have hkeeps : KeepsSymbols symbols (declareIn symbols f name span meaning).1 :=
    keepsSymbols_declareIn span meaning symbols f
  unfold declareIn at hkeeps ⊢
  cases hfind : f.find? name with
  | none =>
    have hid : ∃ y : Symbol, (symbols.push ⟨name, span, meaning, []⟩)[symbols.size]? = some y
        ∧ y.name = name := ⟨_, Array.getElem?_push_size, rfl⟩
    rw [hfind] at hkeeps
    exact ⟨(h.mono hkeeps).bind hid, hid⟩
  | some id =>
    rw [hfind] at hkeeps
    exact ⟨h.mono hkeeps, (h.mono hkeeps).find? hfind⟩

variable (name) in
/-- A hoisted name is known by one symbol in all scopes on the way, which has that name. -/
theorem named_declareHoisted {passed : List Frame} {target : Frame}
    (hpassed : ∀ f ∈ passed, f.Named symbols ∧ f.kind ≠ .body) (htarget : target.Named symbols) :
    (∀ f ∈ (declareHoisted symbols passed target name span meaning).2.1,
        f.Named (declareHoisted symbols passed target name span meaning).1)
      ∧ (declareHoisted symbols passed target name span meaning).2.2.Named
        (declareHoisted symbols passed target name span meaning).1 := by
  have hkeeps : KeepsSymbols symbols (declareHoisted symbols passed target name span meaning).1 :=
    keepsSymbols_declareHoisted span meaning symbols passed target
  unfold declareHoisted at hkeeps ⊢
  cases hfound : passed.findSome? (·.find? name) with
  | none =>
    rw [hfound] at hkeeps
    obtain ⟨htarget', hid⟩ := named_declareIn name span meaning htarget
    refine ⟨fun f hf => ?_, htarget'⟩
    obtain ⟨g, hg, rfl⟩ := List.mem_map.1 hf
    exact ((hpassed g hg).1.mono hkeeps).hoist hid (hpassed g hg).2
  | some id =>
    rw [hfound] at hkeeps
    obtain ⟨g, hg, hfind⟩ := List.exists_of_findSome?_eq_some hfound
    have hid := ((hpassed g hg).1.mono hkeeps).find? hfind
    refine ⟨fun f hf => ?_, (htarget.mono hkeeps).bind hid⟩
    obtain ⟨e, he, rfl⟩ := List.mem_map.1 hf
    obtain he | ⟨g', hg', rfl⟩ := mem_unbindFirst he
    · exact ((hpassed e he).1.mono hkeeps).hoist hid (hpassed e he).2
    · exact (((hpassed g' hg').1.mono hkeeps).unbind name).hoist hid (hpassed g' hg').2

/-- All scopes bind names to symbols of these names, and symbols go on from earlier ones. -/
structure Follows (symbols : Array Symbol) (r : Resolution) : Prop where
  keeps : KeepsSymbols symbols r.symbols
  named : ∀ f ∈ r.frames, f.Named r.symbols

theorem Follows.of_frames {r r' : Resolution} (h : r.Follows symbols)
    (hkeeps : KeepsSymbols r.symbols r'.symbols)
    (hframes : ∀ f' ∈ r'.frames, f'.Named r'.symbols ∨ f' ∈ r.frames) : r'.Follows symbols := by
  refine ⟨h.keeps.trans hkeeps, fun f' hf' => ?_⟩
  obtain hnamed | hf := hframes f' hf'
  · exact hnamed
  · exact (h.named f' hf).mono hkeeps

/-- A declaration keeps symbols and names in step, whichever scope it goes to. One case for each
thing that a declaration does. -/
theorem Follows.declare {r : Resolution} (h : r.Follows symbols) (reach : Reach) :
    (r.declare name span meaning reach).Follows symbols := by
  obtain hsame | ⟨passed, target, rest, hframes, hdeclared, hsymbols⟩
    | ⟨passed, target, rest, hframes, hpassed, hdeclared, hsymbols⟩ :=
    declare_cases name span meaning r reach
  · rw [hsame]
    exact h
  · have hold : target.Named r.symbols := h.named target (by simp [hframes])
    refine h.of_frames (hsymbols ▸ keepsSymbols_declareIn span meaning r.symbols target)
      fun f hf => ?_
    rw [hdeclared] at hf
    rw [hsymbols, hframes]
    obtain hf | hf := List.mem_append.1 hf
    · exact .inr (by simp [hf])
    · obtain rfl | hf := List.mem_cons.1 hf
      · exact .inl (named_declareIn name span meaning hold).1
      · exact .inr (by simp [hf])
  · have hold : ∀ f ∈ passed ++ target :: rest, f.Named r.symbols :=
      fun f hf => h.named f (hframes ▸ hf)
    obtain ⟨hnew, hnew'⟩ := named_declareHoisted name span meaning
      (fun f hf => ⟨hold f (by simp [hf]), hpassed f hf⟩) (hold target (by simp))
    refine h.of_frames (hsymbols ▸ keepsSymbols_declareHoisted span meaning r.symbols passed
      target) fun f hf => ?_
    rw [hdeclared] at hf
    rw [hsymbols, hframes]
    obtain hf | hf := List.mem_append.1 hf
    · exact .inl (hnew f hf)
    · obtain rfl | hf := List.mem_cons.1 hf
      · exact .inl hnew'
      · exact .inr (by simp [hf])

variable {r : Resolution}

theorem Follows.enter (h : r.Follows symbols) (kind : ScopeKind) :
    (r.enter kind).Follows symbols := by
  refine h.of_frames (KeepsSymbols.refl _) fun f hf => ?_
  obtain rfl | hf := List.mem_cons.1 hf
  · exact .inl ⟨List.nodup_nil, fun e he => absurd he List.not_mem_nil, fun _ => rfl⟩
  · exact .inr hf

theorem Follows.wait (h : r.Follows symbols) (ps : List Pending) :
    { r with scope := r.scope.wait ps : Resolution }.Follows symbols := by
  refine h.of_frames (KeepsSymbols.refl _) fun f hf => ?_
  obtain rfl | hf := List.mem_cons.1 hf
  · obtain ⟨hnodup, hnamed, hclosed⟩ := h.named r.scope List.mem_cons_self
    exact .inl ⟨hnodup, hnamed, hclosed⟩
  · exact .inr (List.mem_cons_of_mem _ hf)

theorem Follows.settle (h : r.Follows symbols) : r.settle.Follows symbols := by
  obtain ⟨old, scope, outer⟩ := r
  have hkeeps := keepsSymbols_lookUp scope scope.pending old
  have hscope := (h.named scope List.mem_cons_self).mono hkeeps
  cases outer with
  | nil =>
    refine ⟨h.keeps.trans hkeeps, fun f hf => ?_⟩
    obtain rfl := List.mem_singleton.1 hf
    exact ⟨hscope.nodup, hscope.named, hscope.closed⟩
  | cons g gs =>
    refine ⟨h.keeps.trans hkeeps, fun f hf => ?_⟩
    obtain rfl | hf := List.mem_cons.1 hf
    · exact ⟨hscope.nodup, hscope.named, hscope.closed⟩
    · obtain rfl | hf := List.mem_cons.1 hf
      · have hg := (h.named g (by simp [frames])).mono hkeeps
        exact ⟨hg.nodup, hg.named, hg.closed⟩
      · exact (h.named f (by simp [frames, hf])).mono hkeeps

/-- What a scope did not know waits in the scope around it. -/
theorem Follows.leave (h : r.Follows symbols) : r.leave.Follows symbols := by
  unfold Resolution.leave
  have hsettle := h.settle
  generalize r.settle = settled at hsettle ⊢
  obtain ⟨old, scope, outer⟩ := settled
  cases outer with
  | nil => exact hsettle
  | cons g gs => exact ⟨hsettle.keeps, fun f hf => hsettle.named f (List.mem_cons_of_mem _ hf)⟩

end Named

mutual

theorem Follows.read {symbols : Array Symbol} : ∀ (item : Item) {r : Resolution},
    r.Follows symbols → (r.read item).Follows symbols
  | .declare name span meaning reach, r, h => by
    rw [Resolution.read]
    exact h.declare span meaning reach
  | .use name span how, r, h => h.wait _
  | .scope kind header body, r, h => by
    rw [Resolution.read]
    exact (Follows.readAll body (Follows.readAll header (h.enter kind)).settle).leave

theorem Follows.readAll {symbols : Array Symbol} : ∀ (items : List Item) {r : Resolution},
    r.Follows symbols → (r.readAll items).Follows symbols
  | [], r, h => h
  | item :: items, r, h => by
    rw [Resolution.readAll]
    exact Follows.readAll items (Follows.read item h)

end

/-! ## The home of a name -/

section Home

variable {name : String} {r : Resolution}

theorem hoists_of_declaresOut {item : Item} (h : item.declaresOut name = false) :
    item.hoists name = false := by
  cases item with
  | declare other span meaning reach =>
    have hne : (other == name) = false := h
    simp [Item.hoists, Item.hasDeclaration, Item.leavesBlocks, hne]
  | use other span how => rfl
  | scope kind header body => exact h

/-- Items that do not declare a name in the outermost scope leave it there as it is. -/
theorem Shows.readAll_of_not_declaresOut {v : Option Nat} : ∀ {items : List Item} {r : Resolution},
    (∀ item ∈ items, item.declaresOut name = false) → Shows name v [] [] r.frames →
    Shows name v [] [] (r.readAll items).frames
  | [], _, _, h => h
  | item :: items, r, hitems, h => by
    have hitem := hitems item List.mem_cons_self
    rw [readAll]
    exact Shows.readAll_of_not_declaresOut (fun i hi => hitems i (List.mem_cons_of_mem _ hi))
      (Shows.read_inside item (fun hd => by cases hd) (.inr hitem) h (hoists_of_declaresOut hitem))

variable (name) in
theorem declare_outermost {root : Frame} (hframes : r.frames = [root]) (hkind : root.kind = .body)
    (span : Span) (meaning : Meaning) (reach : Reach) :
    (r.declare name span meaning reach).frames = [(declareIn r.symbols root name span meaning).2.1]
    ∧ (r.declare name span meaning reach).symbols
      = (declareIn r.symbols root name span meaning).1 := by
  obtain ⟨hscope, houter⟩ := List.cons.inj hframes
  have hblock : (r.declare name span meaning .block).frames
        = [(declareIn r.symbols root name span meaning).2.1]
      ∧ (r.declare name span meaning .block).symbols
        = (declareIn r.symbols root name span meaning).1 := by
    rw [frames_declare_block, hscope, houter]
    exact ⟨rfl, by rw [← hscope]; rfl⟩
  cases reach with
  | block => exact hblock
  | hoisted =>
    have hsplit : r.frames = [] ++ root :: [] := hframes
    exact declare_hoisted_eq name span meaning hsplit (by simp) hkind
  | conditional =>
    rw [declare_conditional_of_notMem span meaning (by simp [hframes, hkind])]
    exact hblock

/-- With no scope at hand but the outermost one, what is shown is what that scope knows. -/
theorem shows_outermost_iff {v : Option Nat} {frames : List Frame} :
    Shows name v [] [] frames ↔
      ∃ root, frames = [root] ∧ root.kind = .body ∧ root.find? name = v := by
  constructor
  · rintro ⟨fs, gs, root, rfl, hfs, hgs, -, hroot⟩
    obtain rfl := List.map_eq_nil_iff.1 hfs
    obtain rfl := List.map_eq_nil_iff.1 hgs
    exact ⟨root, rfl, hroot⟩
  · rintro ⟨root, rfl, hroot⟩
    exact ⟨[], [], root, rfl, rfl, rfl, by simp, hroot⟩

/-- The first declaration makes a symbol at its place. -/
theorem Shows.declare_first (h : Shows name none [] [] r.frames) (span : Span) (meaning : Meaning)
    (reach : Reach) :
    Shows name (some r.symbols.size) [] [] (r.declare name span meaning reach).frames
    ∧ (r.declare name span meaning reach).symbols = r.symbols.push ⟨name, span, meaning, []⟩ := by
  obtain ⟨root, hframes, hkind, hfind⟩ := shows_outermost_iff.1 h
  obtain ⟨hframes', hsymbols⟩ := declare_outermost name hframes hkind span meaning reach
  simp only [declareIn, hfind] at hframes' hsymbols
  exact ⟨shows_outermost_iff.2 ⟨_, hframes', hkind, root.find?_bind_self _⟩, hsymbols⟩

/-- A declaration joins the symbol that the outermost scope has. -/
theorem Shows.declare_again {id : Nat} (h : Shows name (some id) [] [] r.frames) (span : Span)
    (meaning : Meaning) (reach : Reach) :
    Shows name (some id) [] [] (r.declare name span meaning reach).frames := by
  obtain ⟨root, hframes, hkind, hfind⟩ := shows_outermost_iff.1 h
  obtain ⟨hframes', -⟩ := declare_outermost name hframes hkind span meaning reach
  simp only [declareIn, hfind] at hframes'
  exact shows_outermost_iff.2 ⟨root, hframes', hkind, hfind⟩

/-- Items that do not move a name leave its symbol where it is. -/
theorem Shows.readAll_of_not_moves {id : Nat} : ∀ {items : List Item} {r : Resolution},
    (∀ item ∈ items, item.moves name = false) → Shows name (some id) [] [] r.frames →
    Shows name (some id) [] [] (r.readAll items).frames
  | [], _, _, h => h
  | item :: items, r, hitems, h => by
    have hitem := hitems item List.mem_cons_self
    rw [readAll]
    refine Shows.readAll_of_not_moves (fun i hi => hitems i (List.mem_cons_of_mem _ hi)) ?_
    cases item with
    | declare other span meaning reach =>
      rw [read]
      by_cases hname : name = other
      · subst hname
        exact h.declare_again span meaning reach
      · exact h.congr (views_declare_of_ne hname span meaning reach)
    | use other span how => exact h.wait _
    | scope kind header body =>
      rcases Bool.and_eq_false_iff.1 hitem with hhoists | hshields
      · exact Shows.read_inside _ (fun hd => by cases hd) (.inr hhoists) h hhoists
      · exact Shows.read_around _ (fun hd => by cases hd) (fun _ => rfl) h hshields

end Home

end Resolution

/-- The outermost scope has one symbol for a name that it knows. -/
theorem Resolution.unique_of_shows {name : String} {id : Nat} {r : Resolution} {y : Symbol}
    (h : Shows name (some id) [] [] r.frames) (hnamed : ∀ f ∈ r.frames, f.Named r.symbols)
    (hy : r.symbols[id]? = some y) : (∃ e ∈ r.scope.bindings, r.symbols[e.2]? = some y)
      ∧ ∀ e ∈ r.scope.bindings, ∀ z : Symbol, r.symbols[e.2]? = some z → z.name = name → z = y := by
  obtain ⟨root, hframes, hkind, hfind⟩ := shows_outermost_iff.1 h
  obtain ⟨rfl, -⟩ := List.cons.inj hframes
  have hscope := hnamed r.scope List.mem_cons_self
  have hget : Assoc.get? name r.scope.bindings = some id := by
    rw [Frame.find?, hscope.closed hkind] at hfind
    simpa [Assoc.get?] using hfind
  refine ⟨⟨_, Assoc.mem_of_get? hget, hy⟩, ?_⟩
  rintro ⟨other, i⟩ he z hz rfl
  obtain ⟨z', hz', hother⟩ := hscope.named (other, i) (List.mem_append_left _ he)
  obtain rfl := Option.some.inj (hz.symm.trans hz')
  obtain rfl : z.name = other := hother
  obtain rfl := Option.some.inj ((Assoc.get?_of_mem hscope.nodup he).symm.trans hget)
  exact Option.some.inj (hz.symm.trans hy)

theorem Resolution.readAll_append : ∀ (front back : List Item) (r : Resolution),
    r.readAll (front ++ back) = (r.readAll front).readAll back
  | [], _, _ => rfl
  | item :: front, back, r => by
    rw [List.cons_append, readAll, readAll, readAll_append front back]

theorem Symbol.mem_ofItems_iff {items : List Item} {y : Symbol} : y ∈ Symbol.ofItems items ↔
    ∃ e ∈ (Resolution.readAll { scope := { kind := .body } } items).settle.scope.bindings,
      (Resolution.readAll { scope := { kind := .body } } items).settle.symbols[e.2]? = some y := by
  rw [Symbol.mem_ofItems, Symbol.declared, List.mem_filterMap]

open Resolution in
/-- A name is at home at its first declaration in the outermost scope, if nothing behind it moves
the name. -/
theorem Symbol.home_of_first {items : List Item} {name : String} {span : Span}
    (hfirst : Item.declaresFirst name span items = true) :
    (∃ y ∈ Symbol.ofItems items, y.name = name)
      ∧ ∀ y ∈ Symbol.ofItems items, y.name = name → y.span = span := by
  obtain ⟨front, meaning, reach, back, rfl, hfront, hback⟩ :=
    Item.exists_split_of_declaresFirst hfirst
  have hstart : Shows name none [] [] ({ scope := { kind := .body } } : Resolution).frames :=
    shows_outermost_iff.2 ⟨_, rfl, rfl, rfl⟩
  have hnamed : ({ scope := { kind := .body } } : Resolution).Follows #[] :=
    ⟨KeepsSymbols.refl _, fun f hf => by
      obtain rfl := List.mem_singleton.1 hf
      exact ⟨List.nodup_nil, by simp, fun _ => rfl⟩⟩
  simp only [Symbol.mem_ofItems_iff, readAll_append, readAll, Resolution.read]
  -- The symbol is made by the declaration, and from then on it keeps its name and its place.
  have hbefore := Shows.readAll_of_not_declaresOut hfront hstart
  have hnamed' := (Follows.readAll front hnamed).named
  generalize Resolution.readAll { scope := { kind := .body } } front = r at hbefore hnamed' ⊢
  obtain ⟨hfirst, hsymbols⟩ := hbefore.declare_first span meaning reach
  have hfollows : (r.declare name span meaning reach).Follows
      (r.declare name span meaning reach).symbols :=
    ⟨KeepsSymbols.refl _, (Follows.declare span meaning ⟨KeepsSymbols.refl _, hnamed'⟩ reach).named⟩
  have hshows := (Shows.readAll_of_not_moves hback hfirst).settle
  have hlast := (Follows.readAll back hfollows).settle
  obtain ⟨y, hy, hname, hspan⟩ := hlast.keeps r.symbols.size ⟨name, span, meaning, []⟩ (by
    rw [hsymbols, Array.getElem?_push_size])
  obtain ⟨⟨e, he, hey⟩, hunique⟩ := unique_of_shows hshows hlast.named hy
  refine ⟨⟨y, ⟨e, he, hey⟩, hname⟩, ?_⟩
  rintro z ⟨e, he, hz⟩ hzname
  rw [hunique e he z hz hzname]
  exact hspan

end Script

end ZodGen
