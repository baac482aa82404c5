import ZodGen.Proofs.NodeMaps
import ZodGen.Proofs.Session

/-!
# Two runs of a compiler

The same call is answered twice: with other options the second time, and with other references that
may still be replaced. Then the second outcome is the first one adapted to the other options
(`adapts_outcome`). If the options read text alike, that is the first outcome itself. Where only the
second run may replace a reference, the first fails because the reference is circular, which the
statement excuses.
-/

namespace ZodGen

/-! ## Outcomes -/

namespace Outcome

variable {α β γ δ : Type} {X : Error → Prop} {E : Error → Error → Prop} {V : α → β → Prop}
  {W : γ → δ → Prop} {x : Outcome α} {y : Outcome β}

/-- The first outcome is an excused error, or both are results that `V` relates, or both are errors
that `E` relates. -/
inductive Tracks (X : Error → Prop) (E : Error → Error → Prop) (V : α → β → Prop) :
    Outcome α → Outcome β → Prop
  | ok {a : α} {b : β} (h : V a b) : Tracks X E V (.ok a) (.ok b)
  | error {e e' : Error} (h : E e e') : Tracks X E V (.error e) (.error e')
  | excused {e : Error} (h : X e) (y : Outcome β) : Tracks X E V (.error e) y

theorem Tracks.bind (h : Tracks X E V x y) {f : α → Outcome γ} {g : β → Outcome δ}
    (hf : ∀ a b, V a b → Tracks X E W (f a) (g b)) : Tracks X E W (x >>= f) (y >>= g) := by
  cases h with
  | ok h => exact hf _ _ h
  | error h => exact .error h
  | excused h y => exact .excused h _

theorem Tracks.map (h : Tracks X E V x y) {f : α → γ} {g : β → δ}
    (hf : ∀ a b, V a b → W (f a) (g b)) :
    Tracks X E W (x >>= fun a => .ok (f a)) (y >>= fun b => .ok (g b)) :=
  h.bind fun a b hab => .ok (hf a b hab)

theorem tracks_self (hE : ∀ e, E e e) {V : α → α → Prop} (hV : ∀ a, V a a) (x : Outcome α) :
    Tracks X E V x x := by
  rcases x with e | a
  · exact .error (hE e)
  · exact .ok (hV a)

/-- Lists are mapped by two runs item by item, and the first error ends both. -/
theorem tracks_mapM {f : α → Outcome γ} {g : β → Outcome δ} {F : γ → δ} :
    ∀ {xs : List α} {ys : List β},
      List.Forall₂ (fun a b => Tracks X E (fun c d => F c = d) (f a) (g b)) xs ys →
        Tracks X E (fun cs ds => cs.map F = ds) (xs.mapM f) (ys.mapM g)
  | [], [], .nil => .ok rfl
  | a :: xs, b :: ys, .cons hab hrest => by
    rw [List.mapM_cons, List.mapM_cons]
    refine hab.bind fun c _ hc => (tracks_mapM hrest).map fun cs _ hcs => ?_
    rw [List.map_cons, hc, hcs]

end Outcome

/-! ## Other options -/

namespace Form

variable {o o' : Schema.Options}

/-- Numbers and booleans, which are the forms that text can be read as. -/
def isPrimitive {α : Type} : Form α → Bool
  | .number _ => true
  | .boolean => true
  | _ => false

theorem isPrimitive_map {α : Type} (f : α → α) (form : Form α) :
    (form.map f).isPrimitive = form.isPrimitive := by
  cases form <;> rfl

theorem map_of_isPrimitive {α : Type} {form : Form α} (h : form.isPrimitive = true) (f : α → α) :
    form.map f = form := by
  cases form <;> simp_all [isPrimitive, map]

/-- A form for other options. A number or boolean is read from text if the other options ask for it
and the first ones do not. -/
def adapt (o o' : Schema.Options) (form : Form Validator) : Form Validator :=
  if form.isPrimitive && !o.coerces then Schema.leaf o' form else form

theorem adapt_of_not_isPrimitive {form : Form Validator} (h : form.isPrimitive = false) :
    adapt o o' form = form := by
  simp [adapt, h]

theorem adapt_eq_self (h : o.coerces = o'.coerces) (form : Form Validator) :
    adapt o o' form = form := by
  unfold adapt Schema.leaf
  by_cases hc : o'.coerces <;> simp [h, hc]

end Form

namespace Validator

variable {o o' : Schema.Options}

/-- A validator for other options. -/
def adapt (o o' : Schema.Options) (v : Validator) : Validator := v.mapNodes (Form.adapt o o')

theorem adapt_mk (form : Form Validator) (d : Option String) :
    adapt o o' ⟨form, d⟩ = ⟨mapForm (Form.adapt o o') form, d⟩ := by
  rw [adapt, mapNodes]

theorem description_adapt (v : Validator) : (v.adapt o o').description = v.description := by
  rw [adapt, mapNodes_eq]

theorem adapt_eq_self (h : o.coerces = o'.coerces) (v : Validator) : v.adapt o o' = v :=
  mapNodes_eq_self (Form.adapt_eq_self h) v

theorem mapForm_adapt {form : Form Validator} (h : form.isPrimitive = false) :
    mapForm (Form.adapt o o') form = form.map (adapt o o') := by
  rw [mapForm_eq, Form.adapt_of_not_isPrimitive (by rw [Form.isPrimitive_map, h])]
  rfl

theorem shape?_adapt (o o' : Schema.Options) (v : Validator) :
    (v.adapt o o').shape? = v.shape?.map (Shape.map (adapt o o')) := by
  obtain ⟨form, d⟩ := v
  rw [adapt_mk]
  cases form with
  | number | boolean =>
    rw [mapForm_eq]
    unfold Form.adapt Schema.leaf
    split_ifs <;> rfl
  | _ => rw [mapForm_adapt rfl]; rfl

end Validator

namespace Schema

open Outcome
open Validator (mapForm adapt_mk mapForm_adapt shape?_adapt)

section Build

variable {o o' : Options}

/-- A leaf made for the first options and adapted is the leaf made for the others, if these read
text whenever the first do. -/
theorem mapForm_leaf (h : o.coerces = true → o'.coerces = true) {form : Form Validator}
    (hp : form.isPrimitive = true) : mapForm (Form.adapt o o') (leaf o form) = leaf o' form := by
  by_cases hc : o.coerces = true
  · have hself : (Validator.plain form).adapt o o' = .plain form :=
      Validator.adapt_eq_self (hc.trans (h hc).symm) _
    rw [leaf, leaf, if_pos hc, if_pos (h hc), mapForm_adapt rfl, Form.map, hself]
  · rw [leaf, if_neg hc, Validator.mapForm_eq, Form.map_of_isPrimitive hp, Form.adapt]
    simp [hp, hc]

theorem adapt_finish (schema : Value) (form : Form Validator) :
    (finish schema form).adapt o o' = finish schema (mapForm (Form.adapt o o') form) := by
  unfold finish
  simp only []
  split_ifs
  · rw [adapt_mk, mapForm_adapt rfl, Form.map, Validator.plain, adapt_mk]
    rfl
  · rw [adapt_mk]

theorem mapForm_alternatives (vs : List Validator) : mapForm (Form.adapt o o') (alternatives vs)
    = alternatives (vs.map (Validator.adapt o o')) := by
  match vs with
  | [] => exact mapForm_adapt rfl
  | [⟨form, d⟩] =>
    rw [List.map_singleton, adapt_mk]
    rfl
  | v :: w :: vs => exact mapForm_adapt rfl

theorem map_absorbParts : ∀ (vs : List Validator) (s : Shape Validator),
    (absorbParts s vs).map (Validator.adapt o o')
      = absorbParts (s.map (Validator.adapt o o')) (vs.map (Validator.adapt o o'))
  | [], _ => rfl
  | v :: vs, s => by
    rw [List.map_cons, absorbParts, absorbParts, List.foldl_cons, List.foldl_cons, shape?_adapt]
    rcases v.shape? with _ | p
    · exact map_absorbParts vs s
    · rw [Option.map_some]
      simp only [← Shape.map_absorb]
      exact map_absorbParts vs (s.absorb p)

end Build

/-! ## Rules -/

/-- Errors with one cause. They are equal if the options read text alike; otherwise they may name
another form. -/
def Similar (o o' : Options) (e e' : Error) : Prop :=
  e.cause = e'.cause ∧ (o.coerces = o'.coerces → e = e')

theorem similar_self (o o' : Options) (e : Error) : Similar o o' e e := ⟨rfl, fun _ => rfl⟩

/-- The first outcome is an excused error, or the second one is the first for other options. -/
abbrev Adapts (X : Error → Prop) (o o' : Options) : Outcome Validator → Outcome Validator → Prop :=
  Tracks X (Similar o o') fun v w => v.adapt o o' = w

section Adapts

variable {X : Error → Prop} {o o' : Options} {x y : Outcome Validator}

theorem Adapts.eq_ok (h : Adapts X o o' x y) {v : Validator} (hx : x = .ok v) :
    y = .ok (v.adapt o o') := by
  cases h with
  | ok h =>
    cases hx
    rw [h]
  | error | excused => cases hx

theorem Adapts.eq_error (h : Adapts (fun _ => False) o o' x y) {e : Error} (hx : x = .error e) :
    ∃ e', y = .error e' ∧ e'.cause = e.cause := by
  cases h with
  | ok => cases hx
  | error h =>
    cases hx
    exact ⟨_, rfl, h.1.symm⟩
  | excused h => exact h.elim

/-- Runs that read text alike, and of which none is excused, are the same. -/
theorem Adapts.eq (h : Adapts (fun _ => False) o o' x y) (hc : o.coerces = o'.coerces) :
    x = y := by
  cases h with
  | ok h => rw [← h, Validator.adapt_eq_self hc]
  | error h => rw [h.2 hc]
  | excused h => exact h.elim

end Adapts

section Rules

variable {X : Error → Prop} {c : Compiler} {pending pending' : List String} {o o' : Options}

theorem tagged_of_shape? {v : Validator} {s : Shape Validator} (h : v.shape? = some s)
    (property tag r : String) : tagged property tag r v
      = .ok ⟨.object (s.insert property (.literalText tag) true), v.description⟩ := by
  unfold Validator.shape? at h
  split at h
  · rename_i shape hform
    cases h
    rw [tagged, hform]
  · cases h

theorem tagged_of_shape?_none {v : Validator} (h : v.shape? = none) (property tag r : String) :
    ∃ detail, tagged property tag r v = fail .invalidDiscriminatedUnion detail := by
  unfold tagged
  split
  · rename_i shape hform
    simp [Validator.shape?, hform] at h
  · exact ⟨_, rfl⟩

/-- A tag goes into the shape of a validator, which the options do not change. -/
theorem adapts_tagged (property tag r : String) (v : Validator) :
    Adapts X o o' (tagged property tag r v) (tagged property tag r (v.adapt o o')) := by
  -- the error names the form of the variant, so its text is the same only if no form changes
  by_cases hc : o.coerces = o'.coerces
  · rw [Validator.adapt_eq_self hc]
    exact tracks_self (similar_self o o') (Validator.adapt_eq_self hc) _
  · have hshape := shape?_adapt o o' v
    rcases hs : v.shape? with _ | s
    · obtain ⟨d, hd⟩ := tagged_of_shape?_none hs property tag r
      obtain ⟨d', hd'⟩ := tagged_of_shape?_none (hshape.trans (by rw [hs]; rfl)) property tag r
      rw [hd, hd']
      exact .error ⟨rfl, fun h => (hc h).elim⟩
    · rw [tagged_of_shape? hs, tagged_of_shape? (hshape.trans (by rw [hs]; rfl))]
      refine .ok ?_
      have hliteral : (Validator.literalText tag).adapt o o' = .literalText tag := by
        rw [Validator.literalText, Validator.plain, adapt_mk, mapForm_adapt rfl]
        rfl
      rw [adapt_mk, mapForm_adapt rfl, Form.map, Shape.map_insert, hliteral,
        Validator.description_adapt]

theorem tracks_plainForm (ho : o.coerces = true → o'.coerces = true) (schema : Value) :
    Tracks X (Similar o o') (fun form form' => mapForm (Form.adapt o o') form = form')
      (plainForm o schema) (plainForm o' schema) := by
  unfold plainForm
  split
  · split_ifs
    · exact .ok (mapForm_adapt rfl)
    · split
      · unfold enumForm
        split
        · exact .error (similar_self _ _ _)
        · refine Tracks.map (tracks_self (similar_self o o') (fun _ => rfl) _) ?_
          rintro texts _ rfl
          exact mapForm_adapt rfl
        · exact .error (similar_self _ _ _)
      · exact .ok (mapForm_adapt rfl)
  · exact .ok (mapForm_leaf ho rfl)
  · exact .ok (mapForm_leaf ho rfl)
  · exact .ok (mapForm_leaf ho rfl)
  · exact .ok (mapForm_adapt rfl)
  · exact .ok (mapForm_adapt rfl)

theorem tracks_members {ps : Assoc Value}
    (h : ∀ m ∈ ps, Adapts X o o' (compileWith c pending o m.2) (compileWith c pending' o' m.2)) :
    Tracks X (Similar o o') (fun ms ms' => Assoc.mapValues (Validator.adapt o o') ms = ms')
      (compileMembers c pending o ps) (compileMembers c pending' o' ps) := by
  rw [compileMembers_eq_mapM, compileMembers_eq_mapM]
  refine tracks_mapM (List.forall₂_same.2 fun m hm => ?_)
  exact (h m hm).map fun v w hvw => Prod.ext rfl hvw

/-- The parts may be others, as long as they compile alike. -/
theorem tracks_allOf (schema : Value) (own : Option (Assoc Value)) {parts parts' : List Value}
    (hparts : List.Forall₂ (fun part part' => Adapts X o o' (partWith c pending o part)
      (partWith c pending' o' part')) parts parts')
    (hown : ∀ m ∈ own.getD [], Adapts X o o' (compileWith c pending o m.2)
      (compileWith c pending' o' m.2)) :
    Tracks X (Similar o o') (fun form form' => mapForm (Form.adapt o o') form = form')
      (lowerBy c pending o schema (.allOf parts own))
      (lowerBy c pending' o' schema (.allOf parts' own)) := by
  simp only [lowerBy, compileParts_eq_mapM]
  refine (tracks_mapM hparts).bind ?_
  rintro vs _ rfl
  rcases own with _ | ps
  · refine .ok ?_
    rw [mapForm_adapt rfl, Form.map, map_absorbParts]
    rfl
  · refine (tracks_members hown).map ?_
    rintro ms _ rfl
    rw [mapForm_adapt rfl, Form.map, Shape.map_absorb, map_absorbParts]
    rfl

/-- A rule compiles alike twice if the schemas and references it compiles do. One case for each
rule; what the rule checks by itself does not depend on the options. -/
theorem tracks_lowerBy (ho : o.coerces = true → o'.coerces = true) (schema : Value) (rule : Rule)
    (h : ∀ s ∈ rule.schemas, Adapts X o o' (compileWith c pending o s)
      (compileWith c pending' o' s))
    (he : ∀ s ∈ rule.schemas, ∀ r, s.ref? = some r → Adapts X o o' (expand c pending o true r)
      (expand c pending' o' true r)) :
    Tracks X (Similar o o') (fun form form' => mapForm (Form.adapt o o') form = form')
      (lowerBy c pending o schema rule) (lowerBy c pending' o' schema rule) := by
  cases rule with
  | tagged d alts =>
    simp only [lowerBy, variants_eq_mapM]
    rcases d.propertyName? with _ | property
    · exact .error (similar_self _ _ _)
    · have hvariants : ∀ m ∈ taggedReferences d alts,
          Adapts X o o' (expand c pending o true m.1 >>= tagged property m.2 m.1)
            (expand c pending' o' true m.1 >>= tagged property m.2 m.1) := by
        intro m hm
        obtain ⟨alt, halt, hr⟩ := mem_of_mem_taggedReferences hm
        refine (he alt halt m.1 hr).bind ?_
        rintro v _ rfl
        exact adapts_tagged property m.2 m.1 v
      refine Tracks.map (tracks_mapM (List.forall₂_same.2 hvariants)) ?_
      rintro vs _ rfl
      exact mapForm_adapt rfl
  | allOf parts own =>
    refine tracks_allOf schema own (List.forall₂_same.2 fun part hp => ?_) fun m hm => ?_
    · unfold partWith
      rcases hr : part.ref? with _ | r
      · exact h part (List.mem_append_left _ hp)
      · exact he part (List.mem_append_left _ hp) r hr
    · exact h m.2 (List.mem_append_right _ (List.mem_map_of_mem hm))
  | alternatives alts =>
    simp only [lowerBy, compileItems_eq_mapM]
    refine Tracks.map (tracks_mapM (List.forall₂_same.2 h)) ?_
    rintro vs _ rfl
    exact mapForm_alternatives vs
  | properties ps =>
    simp only [lowerBy]
    refine Tracks.map (tracks_members fun m hm => h m.2 (List.mem_map_of_mem hm)) ?_
    rintro ms _ rfl
    exact mapForm_adapt rfl
  | array item =>
    rcases item with _ | item
    · exact .error (similar_self _ _ _)
    · refine Tracks.map (h item (by simp [Rule.schemas])) ?_
      rintro v _ rfl
      exact mapForm_adapt rfl
  | plain => exact tracks_plainForm ho schema

/-- A schema compiles alike twice if what stands in it does. -/
theorem adapts_compileWith (ho : o.coerces = true → o'.coerces = true) (schema : Value)
    (hexpand : ∀ r, schema.ref? = some r → Adapts X o o' (expand c pending o false r)
      (expand c pending' o' false r))
    (h : ∀ s ∈ (Rule.of schema).schemas, Adapts X o o' (compileWith c pending o s)
      (compileWith c pending' o' s))
    (he : ∀ s ∈ (Rule.of schema).schemas, ∀ r, s.ref? = some r →
      Adapts X o o' (expand c pending o true r) (expand c pending' o' true r)) :
    Adapts X o o' (compileWith c pending o schema) (compileWith c pending' o' schema) := by
  rw [compileWith, compileWith]
  rcases hr : schema.ref? with _ | r
  · rw [lower_eq, lower_eq]
    refine (tracks_lowerBy ho schema _ h he).map ?_
    rintro form _ rfl
    exact adapt_finish schema form
  · simp only []
    split_ifs
    · refine Tracks.map (tracks_self (similar_self o o') (fun _ => rfl) _) ?_
      rintro name _ rfl
      rw [adapt_mk, mapForm_adapt rfl]
      rfl
    · exact hexpand r hr

end Rules

/-! ## Calls -/

/-- The second list allows the replacements that the first one does. Where it allows more, that the
first run stops at a circular reference is excused. -/
structure Allows (R : String → Prop) (X : Error → Prop) (pending pending' : List String) :
    Prop where
  mem : ∀ r, R r → r ∈ pending → r ∈ pending'
  excused : ∀ r, R r → r ∈ pending' → r ∉ pending → X ⟨.circularReference, r⟩

theorem Allows.others {R : String → Prop} {X : Error → Prop} {pending pending' : List String}
    (h : Allows R X pending pending') (r : String) :
    Allows R X (Reference.others r pending) (Reference.others r pending') := by
  constructor
  · intro s hs hm
    rw [Reference.mem_others] at hm ⊢
    exact ⟨h.mem s hs hm.1, hm.2⟩
  · intro s hs hm hnot
    rw [Reference.mem_others] at hm hnot
    exact h.excused s hs hm.1 fun hp => hnot ⟨hp, hm.2⟩

/-- A replacement leaves fewer references to replace in both runs, and the calls of a schema are for
something smaller, as in `Worker.yields_perform`. -/
theorem adapts_outcome {R : String → Prop} {X : Error → Prop} {c : Compiler} {o o' : Options}
    (hc : Reference.Closed R c.root) (ho : o.coerces = true → o'.coerces = true)
    (pending pending' : List String) (hp : Allows R X pending pending') (call : Call)
    (hcall : ∀ r ∈ call.refs, R r) :
    Adapts X o o' (call.outcome ⟨c, o⟩ pending) (call.outcome ⟨c, o'⟩ pending') := by
  match call, hcall with
  | .compile schema, hcall =>
    have ih : ∀ inner : Call, inner.Inside schema →
        Adapts X o o' (inner.outcome ⟨c, o⟩ pending) (inner.outcome ⟨c, o'⟩ pending') :=
      fun inner hin => adapts_outcome hc ho pending pending' hp inner fun r hr =>
        hcall r (hin.2 hr)
    refine adapts_compileWith ho schema (fun r hr => ?_) (fun s hs => ?_) fun s hs r hr => ?_
    · exact ih (.expand false r) (Call.inside_expand (Value.mem_refs_of_ref? hr) false)
    · exact ih (.compile s) (Rule.inside_of_mem_schemas hs)
    · exact ih (.expand true r) (Call.inside_expand
        ((Rule.inside_of_mem_schemas hs).2 (Value.mem_refs_of_ref? hr)) true)
  | .expand follow r, hcall =>
    have hr : R r := hcall r List.mem_cons_self
    by_cases hm : r ∈ pending
    · rw [Call.outcome_expand_of_mem hm, Call.outcome_expand_of_mem (hp.mem r hr hm)]
      rcases hres : Reference.resolve c.root r with e | target
      · exact .error (similar_self o o' e)
      · exact adapts_outcome hc ho _ _ (hp.others r) (.ofTarget follow target) fun s hs =>
          hc r target hr hres s (Call.refs_ofTarget_subset follow target hs)
    · rw [Call.outcome_expand_of_notMem hm]
      -- Where the second run may still replace the reference, only the first one stops.
      by_cases hm' : r ∈ pending'
      · exact .excused (hp.excused r hr hm' hm) _
      · rw [Call.outcome_expand_of_notMem hm']
        exact .error (similar_self o o' _)
termination_by (pending.length, call.size)
decreasing_by
  · exact Prod.Lex.right _ hin.1
  · exact Prod.Lex.left _ _ (Reference.length_others_lt hm)

/-- With options that read text if the first ones do, a schema compiles to the same validator up to
what reads text. -/
theorem Compiler.adapts_compile (c : Compiler) (schema : Value) {o o' : Options}
    (ho : o.coerces = true → o'.coerces = true) :
    Adapts (fun _ => False) o o' (c.compile schema o) (c.compile schema o') :=
  adapts_outcome (Worker.closed_append_refs schema.refs c.root) ho _ _
    ⟨fun _ _ h => h, fun _ _ h hnot => hnot h⟩ (.compile schema)
    fun _ hr => List.mem_append_left _ hr

end Schema

end ZodGen
