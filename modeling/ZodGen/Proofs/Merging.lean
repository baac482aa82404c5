import ZodGen.Proofs.TwoRuns

/-!
# Parts that make up one object

The parts under `allOf` are absorbed one after the other. Absorbing keeps the first place of a
property and its last value, so it is associative (`Shape.absorb_absorb`), and parts that stand in a
part may as well stand beside it (`compile_flatten`).
-/

namespace ZodGen

/-! ## First place, last value -/

namespace Assoc

variable {κ α : Type} [DecidableEq κ] {k l : κ} {u v : α}

theorem set_set (k : κ) (u v : α) : ∀ ms : List (κ × α), set k v (set k u ms) = set k v ms
  | [] => by simp [set]
  | (j, w) :: ms => by
    by_cases hj : j = k <;> simp [set, hj, set_set k u v ms]

/-- A key that is there already keeps its place, whichever of two keys is set first. -/
theorem set_comm (hne : l ≠ k) (u v : α) : ∀ {ms : List (κ × α)}, l ∈ keys ms →
    set l v (set k u ms) = set k u (set l v ms)
  | (j, w) :: ms, h => by
    by_cases hk : j = k
    · subst hk
      simp [set, hne.symm]
    · by_cases hl : j = l
      · simp [set, hl, hne]
      · have hm : l ∈ keys ms := (List.mem_cons.1 h).resolve_left (Ne.symm hl)
        simp [set, hk, hl, set_comm hne u v hm]

theorem set_extend (v : α) : ∀ {other ms : List (κ × α)}, l ∉ keys other → l ∈ keys ms →
    set l v (extend ms other) = extend (set l v ms) other
  | [], _, _, _ => rfl
  | (k, u) :: other, ms, hnot, hmem => by
    obtain ⟨hne, hnot⟩ := not_or.1 fun h => hnot (List.mem_cons.2 h)
    show set l v (extend (set k u ms) other) = extend (set k u (set l v ms)) other
    rw [set_extend v hnot (mem_keys_set.2 (.inr hmem)), set_comm hne u v hmem]

theorem extend_set (k : κ) (v : α) : ∀ {other : List (κ × α)} (ms : List (κ × α)),
    (keys other).Nodup → extend ms (set k v other) = set k v (extend ms other)
  | [], _, _ => rfl
  | (l, u) :: other, ms, hn => by
    obtain ⟨hnot, hn⟩ := List.nodup_cons.1 hn
    by_cases hl : l = k
    · subst hl
      rw [set, if_pos rfl]
      show extend (set l v ms) other = set l v (extend (set l u ms) other)
      rw [set_extend v hnot (mem_keys_set.2 (.inl rfl)), set_set]
    · rw [set, if_neg hl]
      exact extend_set k v (set l u ms) hn

/-- Extending is associative, if what is in the middle repeats no key. -/
theorem extend_extend : ∀ (other : List (κ × α)) {ms : List (κ × α)} (front : List (κ × α)),
    (keys ms).Nodup → extend front (extend ms other) = extend (extend front ms) other
  | [], _, _, _ => rfl
  | (k, v) :: other, ms, front, hn => by
    show extend front (extend (set k v ms) other) = extend (set k v (extend front ms)) other
    rw [extend_extend other front (nodup_keys_set hn), extend_set k v front hn]

end Assoc

namespace Shape

variable {α : Type}

theorem mem_foldl_addName {name : String} : ∀ {names front : List String},
    name ∈ names.foldl addName front ↔ name ∈ front ∨ name ∈ names
  | [], front => by simp
  | n :: names, front => by
    rw [List.foldl_cons, mem_foldl_addName, mem_addName, List.mem_cons, or_assoc]

theorem foldl_addName_foldl : ∀ (names ns front : List String),
    (names.foldl addName ns).foldl addName front = names.foldl addName (ns.foldl addName front)
  | [], _, _ => rfl
  | n :: names, ns, front => by
    rw [List.foldl_cons, List.foldl_cons, foldl_addName_foldl names]
    congr 1
    by_cases h : n ∈ ns
    · have hmem : n ∈ ns.foldl addName front := mem_foldl_addName.2 (.inr h)
      simp [addName, h, hmem]
    · simp [addName, h, List.foldl_append]

/-- Absorbing is associative, since a shape that has been absorbed into repeats no property. -/
theorem absorb_absorb (s : Shape α) {t : Shape α} (h : (Assoc.keys t.properties).Nodup)
    (u : Shape α) : s.absorb (t.absorb u) = (s.absorb t).absorb u := by
  simp only [absorb, Assoc.extend_extend u.properties s.properties h, foldl_addName_foldl]

theorem nodup_keys_absorb {s : Shape α} (h : (Assoc.keys s.properties).Nodup) (other : Shape α) :
    (Assoc.keys (s.absorb other).properties).Nodup :=
  Assoc.nodup_keys_extend h

end Shape

namespace Schema

theorem absorbParts_append (s : Shape Validator) (vs ws : List Validator) :
    absorbParts s (vs ++ ws) = absorbParts (absorbParts s vs) ws :=
  List.foldl_append

/-- Parts may be put together before they are absorbed. -/
theorem absorb_absorbParts : ∀ (vs : List Validator) (s : Shape Validator) {t : Shape Validator},
    (Assoc.keys t.properties).Nodup → s.absorb (absorbParts t vs) = absorbParts (s.absorb t) vs
  | [], _, _, _ => rfl
  | v :: vs, s, t, ht => by
    rw [absorbParts, absorbParts, List.foldl_cons, List.foldl_cons]
    rcases v.shape? with _ | p
    · exact absorb_absorbParts vs s ht
    · simp only [← Shape.absorb_absorb s ht]
      exact absorb_absorbParts vs s (Shape.nodup_keys_absorb ht p)

/-! ## Parts in parts -/

/-- A schema with its parts, beside other members. -/
def withParts (siblings : Assoc Value) (parts : List Value) : Value :=
  .obj (Assoc.set "allOf" (.arr parts) siblings)

section WithParts

variable {siblings : Assoc Value} {parts : List Value}

theorem get?_withParts {key : String} (h : key ≠ "allOf") :
    (withParts siblings parts).get? key = (Value.obj siblings).get? key :=
  Assoc.get?_set_of_ne h _ _

theorem arr?_withParts : (withParts siblings parts).arr? "allOf" = some parts := by
  rw [Value.arr?, withParts, Value.get?, Assoc.get?_set_self]
  rfl

theorem refsOfMembers_cons_of_ne {key : String} (h : key ≠ "$ref") (v : Value)
    (ms : List (String × Value)) :
    Value.refsOfMembers ((key, v) :: ms) = v.refs ++ Value.refsOfMembers ms := by
  rw [Value.refsOfMembers.eq_def]
  simp only []
  split
  · exact (h rfl).elim
  · rfl

theorem refsOfMembers_set {key : String} (h : key ≠ "$ref") {v w : Value}
    (hrefs : v.refs = w.refs) : ∀ ms : List (String × Value),
      Value.refsOfMembers (Assoc.set key v ms) = Value.refsOfMembers (Assoc.set key w ms)
  | [] => by simp only [Assoc.set, refsOfMembers_cons_of_ne h, hrefs]
  | (k, u) :: ms => by
    simp only [Assoc.set]
    split_ifs with hk
    · simp only [hk, refsOfMembers_cons_of_ne h, hrefs]
    · rw [Value.refsOfMembers.eq_def, Value.refsOfMembers.eq_def ((k, u) :: _)]
      simp only [refsOfMembers_set h hrefs ms]

theorem refsOfItems_append : ∀ items items' : List Value,
    Value.refsOfItems (items ++ items') = Value.refsOfItems items ++ Value.refsOfItems items'
  | [], _ => rfl
  | v :: items, items' => by
    simp only [List.cons_append, Value.refsOfItems, refsOfItems_append items items',
      List.append_assoc]

theorem refs_withParts_nil (parts : List Value) :
    (withParts [] parts).refs = Value.refsOfItems parts := by
  rw [withParts, Value.refs, Assoc.set, refsOfMembers_cons_of_ne (by decide), Value.refs]
  exact List.append_nil _

theorem refs_withParts {parts' : List Value}
    (h : Value.refsOfItems parts = Value.refsOfItems parts') :
    (withParts siblings parts).refs = (withParts siblings parts').refs := by
  rw [withParts, withParts, Value.refs, Value.refs]
  exact refsOfMembers_set (by decide) (by rw [Value.refs, Value.refs, h]) siblings

/-- The rule of a schema with parts depends on its other members only. -/
theorem Rule.of_withParts (siblings : Assoc Value) :
    (∃ d alts, ∀ parts, Rule.of (withParts siblings parts) = .tagged d alts)
    ∨ ∃ own, ∀ parts, Rule.of (withParts siblings parts) = .allOf parts own := by
  have hone : ∀ parts,
      (withParts siblings parts).arr? "oneOf" = (Value.obj siblings).arr? "oneOf" :=
    fun parts => by simp [Value.arr?, get?_withParts]
  have hdiscriminator : ∀ parts, discriminator? (withParts siblings parts)
      = discriminator? (.obj siblings) :=
    fun parts => by simp [discriminator?, Value.obj?, get?_withParts]
  by_cases htagged : ∃ d alts, (Value.obj siblings).arr? "oneOf" = some alts
      ∧ discriminator? (.obj siblings) = some d
  · obtain ⟨d, alts, halts, hd⟩ := htagged
    refine .inl ⟨d, alts, fun parts => ?_⟩
    simp only [Rule.of, hone, hdiscriminator, halts, hd]
  · refine .inr ⟨(Value.obj siblings).obj? "properties", fun parts => ?_⟩
    rw [Rule.of_untagged fun alts d halts hd =>
      htagged ⟨d, alts, hone parts ▸ halts, hdiscriminator parts ▸ hd⟩]
    simp [arr?_withParts, Value.obj?, get?_withParts]

theorem required_withParts (siblings : Assoc Value) (parts : List Value) :
    required (withParts siblings parts) = required (.obj siblings) := by
  simp [required, Value.arr?, get?_withParts]

theorem str?_withParts (siblings : Assoc Value) (parts : List Value) {key : String}
    (h : key ≠ "allOf") : (withParts siblings parts).str? key = (Value.obj siblings).str? key := by
  rw [Value.str?, get?_withParts h, Value.str?]

theorem finish_withParts (siblings : Assoc Value) (parts : List Value) (form : Form Validator) :
    finish (withParts siblings parts) form = finish (.obj siblings) form := by
  have hnullable : nullable (withParts siblings parts) = nullable (.obj siblings) := by
    simp [nullable, get?_withParts]
  have hdescription := str?_withParts siblings parts (show "description" ≠ "allOf" by decide)
  simp only [finish, hnullable, hdescription]

end WithParts

section Merge

variable (c : Compiler) (pending : List String) (o : Options)

/-- The shape that parts make on top of another. -/
def mergeParts (s : Shape Validator) (parts : List Value) : Outcome (Shape Validator) := do
  .ok (absorbParts s (← compileParts c pending o parts))

theorem mergeParts_append (s : Shape Validator) (ps qs : List Value) :
    mergeParts c pending o s (ps ++ qs)
      = mergeParts c pending o s ps >>= fun t => mergeParts c pending o t qs := by
  simp only [mergeParts, compileParts_eq_mapM, List.mapM_append]
  rcases ps.mapM (partWith c pending o) with e | vs
  · rfl
  · rcases qs.mapM (partWith c pending o) with e | ws
    · rfl
    · exact congrArg Except.ok (absorbParts_append s vs ws)

/-- A part that is `allOf` by itself may be replaced by its own parts. -/
theorem mergeParts_nested (s : Shape Validator) (qs : List Value) :
    mergeParts c pending o s [withParts [] qs] = mergeParts c pending o s qs := by
  have hpart : partWith c pending o (withParts [] qs)
      = mergeParts c pending o .empty qs >>= fun t => .ok (.object t) := by
    show compileWith c pending o (withParts [] qs) = _
    rw [compileWith_eq_lowerBy _ _ _ rfl]
    show ((compileParts c pending o qs >>= _) >>= _) = _
    rw [mergeParts]
    rcases compileParts c pending o qs with e | vs <;> rfl
  rw [mergeParts, compileParts_eq_mapM, List.mapM_cons, hpart, mergeParts, mergeParts]
  rcases compileParts c pending o qs with e | vs
  · rfl
  · exact congrArg Except.ok (absorb_absorbParts vs s List.nodup_nil)

theorem mergeParts_flatten (s : Shape Validator) (ps qs rs : List Value) :
    mergeParts c pending o s (ps ++ [withParts [] qs] ++ rs)
      = mergeParts c pending o s (ps ++ qs ++ rs) := by
  simp only [mergeParts_append, mergeParts_nested]

/-- Parts count only for the shape they make. -/
theorem exists_lowerBy_allOf (names : List String) (own : Option (Assoc Value)) :
    ∃ f : Shape Validator → Outcome (Form Validator), ∀ schema parts, required schema = names →
      lowerBy c pending o schema (.allOf parts own)
        = mergeParts c pending o (Shape.empty.require names) parts >>= f := by
  rcases own with _ | ps
  · refine ⟨fun shape => .ok (.object shape), fun schema parts h => ?_⟩
    rw [mergeParts, lowerBy, h]
    rcases compileParts c pending o parts with e | vs <;> rfl
  · refine ⟨fun shape => compileMembers c pending o ps >>= fun own =>
      .ok (.object (shape.absorb ((Shape.mk own []).require names))), fun schema parts h => ?_⟩
    rw [mergeParts, lowerBy, h]
    rcases compileParts c pending o parts with e | vs <;> rfl

end Merge

/-- Parts that stand in a part may as well stand beside it, with the same outcome: the same
validator, with its properties and required names in the same order, or the same error. -/
theorem compile_flatten (c : Compiler) (siblings : Assoc Value) (ps qs rs : List Value)
    (o : Options) : c.compile (withParts siblings (ps ++ [withParts [] qs] ++ rs)) o
      = c.compile (withParts siblings (ps ++ qs ++ rs)) o := by
  have hrefs : (withParts siblings (ps ++ [withParts [] qs] ++ rs)).refs
      = (withParts siblings (ps ++ qs ++ rs)).refs := by
    refine refs_withParts ?_
    simp only [refsOfItems_append, Value.refsOfItems, refs_withParts_nil, List.append_nil]
  have href : ∀ parts, (withParts siblings parts).ref? = (Value.obj siblings).ref? :=
    fun parts => str?_withParts siblings parts (by decide)
  rw [Compiler.compile, Compiler.compile, hrefs]
  rcases hr : (Value.obj siblings).ref? with _ | r
  · rw [compileWith_eq_lowerBy _ _ _ ((href _).trans hr),
      compileWith_eq_lowerBy _ _ _ ((href _).trans hr)]
    simp only [finish_withParts]
    rcases Rule.of_withParts siblings with ⟨d, alts, hrule⟩ | ⟨own, hrule⟩
    · rw [hrule, hrule]
      rfl
    · obtain ⟨f, hf⟩ := exists_lowerBy_allOf c
        ((withParts siblings (ps ++ qs ++ rs)).refs ++ c.root.refs) o (required (.obj siblings)) own
      rw [hrule, hrule, hf _ _ (required_withParts _ _), hf _ _ (required_withParts _ _),
        mergeParts_flatten]
  · rw [compileWith, compileWith, href, href, hr]
    simp only [str?_withParts siblings _ (show "description" ≠ "allOf" by decide)]

end Schema

end ZodGen
