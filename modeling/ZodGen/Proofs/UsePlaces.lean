import ZodGen.Proofs.DeclaratorOrder
import ZodGen.Proofs.NameHomes

/-!
# Places of uses

Wherever a script uses a name of its outermost scope, the use takes up some text
(`Symbol.start_lt_stop_of_mem_uses`). The parser notes uses at words and quoted texts only. Looking
names up moves these uses from scope to scope and in the end to the symbols, but makes no others.
-/

namespace ZodGen.Script

/-! ## Uses that the parser notes -/

namespace Parser

instance (n : Nat) : Forward (topLevel (grammar n)) := by unfold topLevel; infer_instance

theorem gives_read (limit : Nat) :
    Gives (Program.read limit) fun p => ∀ item ∈ p.items, item.Wide := by
  refine Gives.andThen inferInstance fun _ => Gives.andThen inferInstance fun _ => ?_
  exact Gives.get.bind fun s hs => Gives.pure (by simpa using hs.items_wide)

end Parser

/-- The names that a script uses take up some text, since the tokens they are read from do. -/
theorem Program.items_wide {source : String} {p : Program} (h : Program.parse source = .ok p) :
    ∀ item ∈ p.items, item.Wide := by
  obtain ⟨s, t, hs, -, hread⟩ := Program.exists_read h
  exact (Parser.gives_read _ s hs p t hread).2.2

/-! ## Uses that are looked up -/

/-- All uses of the symbols take up some text. -/
def UsesWide (symbols : Array Symbol) : Prop :=
  ∀ y ∈ symbols, ∀ u ∈ y.uses, u.start < u.stop

namespace UsesWide

variable {symbols : Array Symbol}

theorem push (h : UsesWide symbols) (name : String) (span : Span) (meaning : Meaning) :
    UsesWide (symbols.push ⟨name, span, meaning, []⟩) := by
  intro y hy u hu
  obtain hy | rfl := Array.mem_push.1 hy
  · exact h y hy u hu
  · cases hu

theorem modify (h : UsesWide symbols) (id : Nat) {f : Symbol → Symbol}
    (hf : ∀ x u, u ∈ (f x).uses → u ∈ x.uses ∨ u.start < u.stop) :
    UsesWide (symbols.modify id f) := by
  intro y hy u hu
  obtain ⟨i, hi⟩ := Array.mem_iff_getElem?.1 hy
  rw [Array.getElem?_modify] at hi
  split_ifs at hi
  · obtain ⟨x, hx, rfl⟩ := Option.map_eq_some_iff.1 hi
    obtain hu | hu := hf x u hu
    · exact h x (Array.mem_of_getElem? hx) u hu
    · exact hu
  · exact h y (Array.mem_of_getElem? hi) u hu

theorem join (h : UsesWide symbols) (id : Nat) (meaning : Meaning) :
    UsesWide (symbols.modify id fun y => { y with meaning := y.meaning.union meaning }) :=
  h.modify id fun _ _ => .inl

end UsesWide

/-- All uses that wait in a scope take up some text. -/
def Frame.Wide (f : Frame) : Prop := ∀ p ∈ f.pending, p.span.start < p.span.stop

theorem Frame.wide_of_pending {f : Frame} (h : f.pending = []) : f.Wide := by
  simp [Frame.Wide, h]

namespace Resolution

variable {name : String} (span : Span) (meaning : Meaning) {symbols : Array Symbol}

variable (name) in
theorem wide_declareIn (h : UsesWide symbols) {f : Frame} (hf : f.Wide) :
    UsesWide (declareIn symbols f name span meaning).1
      ∧ (declareIn symbols f name span meaning).2.1.Wide := by
  unfold declareIn
  cases f.find? name with
  | none => exact ⟨h.push name span meaning, hf⟩
  | some id => exact ⟨h.join id meaning, hf⟩

variable (name) in
theorem wide_declareHoisted (h : UsesWide symbols) {passed : List Frame} {target : Frame}
    (hpassed : ∀ f ∈ passed, f.Wide) (htarget : target.Wide) :
    UsesWide (declareHoisted symbols passed target name span meaning).1
      ∧ (∀ f ∈ (declareHoisted symbols passed target name span meaning).2.1, f.Wide)
      ∧ (declareHoisted symbols passed target name span meaning).2.2.Wide := by
  unfold declareHoisted
  cases passed.findSome? (·.find? name) with
  | none =>
    obtain ⟨hsymbols, htarget⟩ := wide_declareIn name span meaning h htarget
    exact ⟨hsymbols, List.forall_mem_map.2 hpassed, htarget⟩
  | some id =>
    refine ⟨h.join id meaning, List.forall_mem_map.2 fun f hf => ?_, htarget⟩
    obtain hf | ⟨g, hg, rfl⟩ := mem_unbindFirst hf
    · exact hpassed f hf
    · exact hpassed g hg

/-- All uses take up some text, those that wait as well as those of symbols. -/
structure Wide (r : Resolution) : Prop where
  symbols : UsesWide r.symbols
  frames : ∀ f ∈ r.frames, f.Wide

variable {r : Resolution}

theorem Wide.declare (h : r.Wide) (reach : Reach) :
    (r.declare name span meaning reach).Wide := by
  obtain hsame | ⟨passed, target, rest, hframes, hdeclared, hsymbols⟩
    | ⟨passed, target, rest, hframes, -, hdeclared, hsymbols⟩ :=
    declare_cases name span meaning r reach
  · rw [hsame]
    exact h
  · have hold : ∀ f ∈ passed ++ target :: rest, f.Wide := hframes ▸ h.frames
    obtain ⟨hpassed, hback⟩ := List.forall_mem_append.1 hold
    obtain ⟨htarget, hrest⟩ := List.forall_mem_cons.1 hback
    obtain ⟨huses, htarget'⟩ := wide_declareIn name span meaning h.symbols htarget
    refine ⟨hsymbols ▸ huses, hdeclared ▸ List.forall_mem_append.2 ⟨hpassed, ?_⟩⟩
    exact List.forall_mem_cons.2 ⟨htarget', hrest⟩
  · have hold : ∀ f ∈ passed ++ target :: rest, f.Wide := hframes ▸ h.frames
    obtain ⟨hpassed, hback⟩ := List.forall_mem_append.1 hold
    obtain ⟨htarget, hrest⟩ := List.forall_mem_cons.1 hback
    obtain ⟨huses, hpassed', htarget'⟩ :=
      wide_declareHoisted name span meaning h.symbols hpassed htarget
    refine ⟨hsymbols ▸ huses, hdeclared ▸ List.forall_mem_append.2 ⟨hpassed', ?_⟩⟩
    exact List.forall_mem_cons.2 ⟨htarget', hrest⟩

/-- Uses that a scope knows go to their symbols, and the others go on waiting. -/
theorem wide_lookUp (f : Frame) : ∀ {ps : List Pending} {symbols : Array Symbol},
    (∀ p ∈ ps, p.span.start < p.span.stop) → UsesWide symbols →
    UsesWide (lookUp f ps symbols).1 ∧ ∀ p ∈ (lookUp f ps symbols).2, p.span.start < p.span.stop
  | [], _, _, h => ⟨h, by simp [lookUp]⟩
  | p :: ps, symbols, hps, h => by
    obtain ⟨hp, hps⟩ := List.forall_mem_cons.1 hps
    rw [lookUp]
    cases meant? symbols f p with
    | some id =>
      refine wide_lookUp f hps (h.modify id fun x u hu => ?_)
      obtain rfl | hu := List.mem_cons.1 hu
      · exact .inr hp
      · exact .inl hu
    | none =>
      obtain ⟨hsymbols, hrest⟩ := wide_lookUp f hps h
      exact ⟨hsymbols, List.forall_mem_cons.2 ⟨hp, hrest⟩⟩

theorem Wide.enter (h : r.Wide) (kind : ScopeKind) : (r.enter kind).Wide :=
  ⟨h.symbols, List.forall_mem_cons.2 ⟨Frame.wide_of_pending rfl, h.frames⟩⟩

theorem Wide.wait (h : r.Wide) {p : Pending} (hp : p.span.start < p.span.stop) :
    { r with scope := r.scope.wait [p] : Resolution }.Wide := by
  obtain ⟨hscope, houter⟩ := List.forall_mem_cons.1 h.frames
  exact ⟨h.symbols, List.forall_mem_cons.2 ⟨List.forall_mem_cons.2 ⟨hp, hscope⟩, houter⟩⟩

theorem Wide.settle (h : r.Wide) : r.settle.Wide := by
  obtain ⟨symbols, scope, outer⟩ := r
  obtain ⟨hscope, houter⟩ := List.forall_mem_cons.1 h.frames
  obtain ⟨hsymbols, hrest⟩ := wide_lookUp scope hscope h.symbols
  cases outer with
  | nil =>
    exact ⟨hsymbols, List.forall_mem_cons.2 ⟨Frame.wide_of_pending rfl, houter⟩⟩
  | cons f fs =>
    obtain ⟨hf, hfs⟩ := List.forall_mem_cons.1 houter
    have hwait : (f.wait (lookUp scope scope.pending symbols).2).Wide :=
      List.forall_mem_append.2 ⟨hrest, hf⟩
    exact ⟨hsymbols, List.forall_mem_cons.2 ⟨Frame.wide_of_pending rfl,
      List.forall_mem_cons.2 ⟨hwait, hfs⟩⟩⟩

theorem Wide.leave (h : r.Wide) : r.leave.Wide := by
  unfold Resolution.leave
  have hsettle := h.settle
  generalize r.settle = settled at hsettle ⊢
  obtain ⟨symbols, scope, outer⟩ := settled
  cases outer with
  | nil => exact hsettle
  | cons f fs => exact ⟨hsettle.symbols, (List.forall_mem_cons.1 hsettle.frames).2⟩

mutual

/-- One item at a time: only uses add uses, and these take up some text. -/
theorem Wide.read : ∀ {item : Item} {r : Resolution}, item.Wide → r.Wide → (r.read item).Wide
  | .declare name span meaning reach, r, _, h => by
    rw [Resolution.read]
    exact h.declare span meaning reach
  | .use name span how, r, .use _ _ hspan, h => h.wait hspan
  | .scope kind header body, r, .scope _ hheader hbody, h => by
    rw [Resolution.read]
    exact (Wide.readAll hbody (Wide.readAll hheader (h.enter kind)).settle).leave

theorem Wide.readAll : ∀ {items : List Item} {r : Resolution}, (∀ item ∈ items, item.Wide) →
    r.Wide → (r.readAll items).Wide
  | [], r, _, h => h
  | item :: items, r, hitems, h => by
    obtain ⟨hitem, hitems⟩ := List.forall_mem_cons.1 hitems
    rw [Resolution.readAll]
    exact Wide.readAll hitems (Wide.read hitem h)

end

end Resolution

/-- Every use of a symbol takes up some text, if those of the items do. -/
theorem Symbol.start_lt_stop_of_mem_uses {items : List Item} (hitems : ∀ item ∈ items, item.Wide)
    {y : Symbol} (hy : y ∈ Symbol.ofItems items) {u : Span} (hu : u ∈ y.uses) :
    u.start < u.stop := by
  have hstart : ({ scope := { kind := .body } } : Resolution).Wide :=
    ⟨by simp [UsesWide], List.forall_mem_cons.2 ⟨Frame.wide_of_pending rfl, by simp⟩⟩
  have hread := (Resolution.Wide.readAll hitems hstart).settle
  obtain ⟨e, -, hget⟩ := Symbol.mem_ofItems_iff.1 hy
  exact hread.symbols y (Array.mem_of_getElem? hget) u hu

end ZodGen.Script
