import Mathlib.Data.List.Nodup
import ZodGen.Document.Parse
import ZodGen.Json.Basic

/-!
# Members by key

What looking up, setting and filtering does to members. Where no key is repeated, a member is found
under its key, and filtering the members filters what is found. In a document that is read no key is
repeated (`distinctKeys_of_parse`), as its members are set one after the other.
-/

namespace ZodGen.Assoc

section Set

variable {κ α : Type} [DecidableEq κ]

theorem mem_values_set {key : κ} {v w : α} : ∀ {ms : List (κ × α)},
    w ∈ values (set key v ms) → w = v ∨ w ∈ values ms
  | [], h => by simpa [set, values] using h
  | (k, u) :: ms, h => by
    simp only [set] at h
    split_ifs at h
    · simp only [values, List.map_cons, List.mem_cons] at h ⊢
      rcases h with h | h
      · exact .inl h
      · exact .inr (.inr h)
    · simp only [values, List.map_cons, List.mem_cons] at h ⊢
      rcases h with h | h
      · exact .inr (.inl h)
      · rcases mem_values_set h with h | h
        · exact .inl h
        · exact .inr (.inr h)

theorem mem_values_extend {w : α} : ∀ {other ms : List (κ × α)},
    w ∈ values (extend ms other) → w ∈ values ms ∨ w ∈ values other
  | [], ms, h => .inl h
  | (k, v) :: other, ms, h => by
    have hset : w ∈ values (extend (set k v ms) other) := h
    rcases mem_values_extend hset with h | h
    · rcases mem_values_set h with rfl | h
      · exact .inr List.mem_cons_self
      · exact .inl h
    · exact .inr (List.mem_cons_of_mem _ h)

theorem mem_values_ofList {w : α} {pairs : List (κ × α)} (h : w ∈ values (ofList pairs)) :
    w ∈ values pairs := by
  rcases mem_values_extend h with h | h
  · simp [values] at h
  · exact h

theorem mem_keys_set {key k : κ} {v : α} : ∀ {ms : List (κ × α)},
    k ∈ keys (set key v ms) ↔ k = key ∨ k ∈ keys ms
  | [] => by simp [set, keys]
  | (l, u) :: ms => by
    by_cases hl : l = key
    · simp [set, keys, hl]
    · rw [set, if_neg hl]
      show k ∈ l :: keys (set key v ms) ↔ k = key ∨ k ∈ l :: keys ms
      rw [List.mem_cons, mem_keys_set, List.mem_cons, or_left_comm]

theorem nodup_keys_set {key : κ} {v : α} : ∀ {ms : List (κ × α)},
    (keys ms).Nodup → (keys (set key v ms)).Nodup
  | [], _ => List.nodup_singleton key
  | (l, u) :: ms, h => by
    simp only [set]
    split_ifs with hl
    · exact h
    · obtain ⟨hm, hn⟩ := List.nodup_cons.1 h
      refine List.nodup_cons.2 ⟨fun hk => ?_, nodup_keys_set hn⟩
      exact (mem_keys_set.1 hk).elim hl hm

theorem nodup_keys_extend : ∀ {other ms : List (κ × α)},
    (keys ms).Nodup → (keys (extend ms other)).Nodup
  | [], _, h => h
  | (k, v) :: other, ms, h => by
    show (keys (extend (set k v ms) other)).Nodup
    exact nodup_keys_extend (nodup_keys_set h)

theorem nodup_keys_ofList (pairs : List (κ × α)) : (keys (ofList pairs)).Nodup :=
  nodup_keys_extend List.nodup_nil

end Set

section Get

variable {κ α β : Type} [DecidableEq κ]

theorem get?_set_self (key : κ) (v : α) : ∀ ms : List (κ × α), get? key (set key v ms) = some v
  | [] => by simp [set, get?]
  | (k, w) :: ms => by
    by_cases h : k = key <;> simp [set, get?, h, get?_set_self key v ms]

theorem get?_set_of_ne {key other : κ} (h : other ≠ key) (v : α) :
    ∀ ms : List (κ × α), get? other (set key v ms) = get? other ms
  | [] => by simp [set, get?, h.symm]
  | (k, w) :: ms => by
    by_cases hk : k = key
    · subst hk
      simp [set, get?, h.symm]
    · simp [set, get?, hk, get?_set_of_ne h v ms]

theorem get?_append (key : κ) : ∀ ms other : List (κ × α),
    get? key (ms ++ other) = (get? key ms).or (get? key other)
  | [], _ => by simp [get?]
  | (k, v) :: ms, other => by
    simp only [List.cons_append, get?]
    split_ifs
    · rfl
    · exact get?_append key ms other

theorem get?_eq_none_of_notMem {key : κ} : ∀ {ms : List (κ × α)}, key ∉ keys ms →
    get? key ms = none
  | [], _ => rfl
  | (k, v) :: ms, h => by
    obtain ⟨hk, h⟩ := not_or.1 fun hm => h (List.mem_cons.2 hm)
    rw [get?, if_neg (Ne.symm hk)]
    exact get?_eq_none_of_notMem h

theorem get?_eq_none_iff {key : κ} : ∀ {ms : List (κ × α)}, get? key ms = none ↔ key ∉ keys ms
  | [] => by simp [get?, keys]
  | (k, v) :: ms => by
    refine ⟨fun h hm => ?_, get?_eq_none_of_notMem⟩
    rw [get?] at h
    split_ifs at h with hk
    rcases List.mem_cons.1 hm with he | hm
    · exact hk he.symm
    · exact get?_eq_none_iff.1 h hm

/-- Without repeated keys every member is found by its key. -/
theorem get?_of_mem {key : κ} {v : α} : ∀ {ms : List (κ × α)}, (keys ms).Nodup →
    (key, v) ∈ ms → get? key ms = some v
  | (k, w) :: ms, hn, h => by
    obtain ⟨hk, hn⟩ := List.nodup_cons.1 hn
    rcases List.mem_cons.1 h with h | h
    · cases h
      simp [get?]
    · have hkey : key ∈ keys ms := List.mem_map_of_mem (f := Prod.fst) h
      rw [get?, if_neg fun he => hk (by rwa [he])]
      exact get?_of_mem hn h

theorem mem_of_get? {key : κ} {v : α} : ∀ {ms : List (κ × α)}, get? key ms = some v →
    (key, v) ∈ ms
  | (k, u) :: ms, h => by
    rw [get?] at h
    split_ifs at h with hk
    · cases h
      rw [hk]
      exact List.mem_cons_self
    · exact List.mem_cons_of_mem _ (mem_of_get? h)

/-- A member that is dropped hides no other, as no other has its key. -/
theorem get?_filterMap {f : κ × α → Option (κ × β)} (hf : ∀ m m', f m = some m' → m'.1 = m.1)
    (key : κ) : ∀ {ms : List (κ × α)}, (keys ms).Nodup →
    get? key (ms.filterMap f) = (get? key ms).bind fun v => (f (key, v)).map Prod.snd
  | [], _ => rfl
  | (k, w) :: ms, hn => by
    obtain ⟨hk, hn⟩ := List.nodup_cons.1 hn
    have ih := get?_filterMap hf key hn
    by_cases he : k = key
    · subst he
      rcases hw : f (k, w) with _ | ⟨k', w'⟩
      · have hnone : get? k ms = none := get?_eq_none_of_notMem hk
        simp [hw, ih, hnone, get?]
      · obtain rfl : k' = k := hf _ _ hw
        simp [hw, get?]
    · rcases hw : f (k, w) with _ | ⟨k', w'⟩
      · simp [hw, ih, get?, he]
      · obtain rfl : k' = k := hf _ _ hw
        simp [hw, ih, get?, he]

omit [DecidableEq κ] in
theorem keys_filterMap_sublist {f : κ × α → Option (κ × β)}
    (hf : ∀ m m', f m = some m' → m'.1 = m.1) : ∀ ms : List (κ × α),
    (keys (ms.filterMap f)).Sublist (keys ms)
  | [] => List.Sublist.refl _
  | m :: ms => by
    rw [List.filterMap_cons]
    rcases hm : f m with _ | m'
    · exact (keys_filterMap_sublist hf ms).cons _
    · show (m'.1 :: _).Sublist (m.1 :: _)
      rw [hf m m' hm]
      exact (keys_filterMap_sublist hf ms).cons_cons _

/-- Without repeated keys, filtering and looking up can change places. -/
theorem get?_filter (p : κ × α → Bool) (key : κ) {ms : List (κ × α)} (hn : (keys ms).Nodup) :
    get? key (ms.filter p) = (get? key ms).filter fun v => p (key, v) := by
  rw [← List.filterMap_eq_filter, get?_filterMap (fun m m' h => ?_) key hn]
  · rcases get? key ms with _ | v
    · rfl
    · by_cases hp : p (key, v) <;> simp [Option.guard, Option.filter, hp]
  · simp only [Option.guard, Option.ite_none_right_eq_some, Option.some.injEq] at h
    rw [← h.2]

end Get

end ZodGen.Assoc

namespace ZodGen.Value

mutual

/-- No object in a value repeats a key. -/
def distinctKeys : Value → Bool
  | .arr items => distinctKeysOfItems items
  | .obj ms => decide (Assoc.keys ms).Nodup && distinctKeysOfMembers ms
  | _ => true

/-- No object in the items of a list repeats a key. -/
def distinctKeysOfItems : List Value → Bool
  | [] => true
  | v :: vs => v.distinctKeys && distinctKeysOfItems vs

/-- No object in the members of an object repeats a key. -/
def distinctKeysOfMembers : List (String × Value) → Bool
  | [] => true
  | (_, v) :: ms => v.distinctKeys && distinctKeysOfMembers ms

end

theorem distinctKeysOfItems_iff : ∀ {items : List Value},
    distinctKeysOfItems items = true ↔ ∀ v ∈ items, v.distinctKeys = true
  | [] => by simp [distinctKeysOfItems]
  | v :: vs => by simp [distinctKeysOfItems, distinctKeysOfItems_iff]

theorem distinctKeysOfMembers_iff : ∀ {ms : List (String × Value)},
    distinctKeysOfMembers ms = true ↔ ∀ v ∈ Assoc.values ms, v.distinctKeys = true
  | [] => by simp [distinctKeysOfMembers, Assoc.values]
  | (k, v) :: ms => by
    rw [distinctKeysOfMembers, Bool.and_eq_true, distinctKeysOfMembers_iff]
    simp [Assoc.values]

theorem distinctKeys_obj {ms : List (String × Value)} : distinctKeys (.obj ms) = true ↔
    (Assoc.keys ms).Nodup ∧ ∀ v ∈ Assoc.values ms, v.distinctKeys = true := by
  rw [distinctKeys, Bool.and_eq_true, decide_eq_true_iff, distinctKeysOfMembers_iff]

/-- Objects that repeat no key, and share none, make one that repeats none. -/
theorem distinctKeys_append {ms ms' : List (String × Value)} (h : distinctKeys (.obj ms) = true)
    (h' : distinctKeys (.obj ms') = true) (hne : ∀ m ∈ ms, ∀ m' ∈ ms', m.1 ≠ m'.1) :
    distinctKeys (.obj (ms ++ ms')) = true := by
  obtain ⟨hn, hv⟩ := distinctKeys_obj.1 h
  obtain ⟨hn', hv'⟩ := distinctKeys_obj.1 h'
  rw [distinctKeys_obj, Assoc.keys, Assoc.values, List.map_append, List.map_append,
    List.nodup_append]
  refine ⟨⟨hn, hn', fun key hkey key' hkey' => ?_⟩, fun v hm => ?_⟩
  · obtain ⟨m, hm, rfl⟩ := List.mem_map.1 hkey
    obtain ⟨m', hm', rfl⟩ := List.mem_map.1 hkey'
    exact hne m hm m' hm'
  · rcases List.mem_append.1 hm with hm | hm
    · exact hv v hm
    · exact hv' v hm

end ZodGen.Value

/-! ## Documents that are read -/

namespace ZodGen.Value

/-- What lists and objects have as soon as their items and members have it, all values have, when
the others have it. -/
theorem induction_inside {motive : Value → Prop}
    (arr : ∀ items, (∀ v ∈ items, motive v) → motive (.arr items))
    (obj : ∀ ms, (∀ m ∈ ms, motive m.2) → motive (.obj ms))
    (other : ∀ v, v.asArr? = none → v.asObj? = none → motive v) : ∀ v, motive v
  | .arr items => arr items fun v _ => induction_inside arr obj other v
  | .obj ms => obj ms fun m _ => induction_inside arr obj other m.2
  | .null => other _ rfl rfl
  | .bool _ => other _ rfl rfl
  | .num _ => other _ rfl rfl
  | .str _ => other _ rfl rfl
termination_by v => sizeOf v
decreasing_by
  · have := List.sizeOf_lt_of_mem ‹_›
    simp
    omega
  · have hlt := List.sizeOf_lt_of_mem ‹m ∈ ms›
    obtain ⟨key, w⟩ := m
    simp at hlt ⊢
    omega

end ZodGen.Value

namespace ZodGen.Yaml

theorem expansion_bind {α β : Type} {x : Expansion α} {f : α → Expansion β} {n k : Nat} {b : β}
    (h : (x >>= f) n = some (b, k)) : ∃ a l, x n = some (a, l) ∧ f a l = some (b, k) := by
  obtain ⟨⟨a, l⟩, ha, h⟩ := Option.bind_eq_some_iff.1 h
  exact ⟨a, l, ha, h⟩

/-- Each result of several expansions is the expansion of one of the items, at some count. -/
theorem exists_of_mem_expansion {α β : Type} {f : α → Expansion β} : ∀ {xs : List α}
    {ys : List β} {n k : Nat}, xs.mapM f n = some (ys, k) → ∀ y ∈ ys, ∃ x ∈ xs, ∃ l j,
      f x l = some (y, j)
  | [], ys, n, k, h => by
    rw [List.mapM_nil] at h
    cases h
    simp
  | x :: xs, ys, n, k, h => by
    rw [List.mapM_cons] at h
    obtain ⟨y, l, hy, h⟩ := expansion_bind h
    obtain ⟨zs, j, hzs, h⟩ := expansion_bind h
    cases h
    refine List.forall_mem_cons.2 ⟨⟨x, List.mem_cons_self, n, l, hy⟩, fun z hz => ?_⟩
    obtain ⟨w, hw, l', j', hz⟩ := exists_of_mem_expansion hzs z hz
    exact ⟨w, List.mem_cons_of_mem _ hw, l', j', hz⟩

theorem distinctKeys_of_null? {text : String} {v : Value} (h : null? text = some v) :
    v.distinctKeys = true := by
  unfold null? at h
  split_ifs at h
  cases h
  rfl

theorem distinctKeys_of_bool? {text : String} {v : Value} (h : bool? text = some v) :
    v.distinctKeys = true := by
  unfold bool? at h
  split_ifs at h <;> cases h <;> rfl

theorem distinctKeys_of_ofInteger? {n : Int} {v : Value} (h : ofInteger? n = some v) :
    v.distinctKeys = true := by
  unfold ofInteger? at h
  split_ifs at h
  cases h
  rfl

theorem distinctKeys_of_float? {text : String} {v : Value} (h : float? text = some v) :
    v.distinctKeys = true := by
  unfold float? at h
  split_ifs at h
  · cases h
    rfl
  · obtain ⟨x, -, rfl⟩ := Option.map_eq_some_iff.1 h
    rfl

theorem distinctKeys_of_ofPlain? {text : String} {v : Value} (h : ofPlain? text = some v) :
    v.distinctKeys = true := by
  unfold ofPlain? at h
  split at h
  · cases h
    rfl
  · split at h
    · rename_i w hw
      cases h
      rcases Option.or_eq_some_iff.1 hw with hw | ⟨-, hw⟩
      · exact distinctKeys_of_null? hw
      · exact distinctKeys_of_bool? hw
    · split at h
      · exact distinctKeys_of_ofInteger? h
      · split at h
        · cases h
          rfl
        · cases h
          rcases hf : float? text with _ | w
          · rfl
          · exact distinctKeys_of_float? hf

/-- A scalar has no members. -/
theorem distinctKeys_of_ofScalar? {tag : Option String} {isPlain : Bool} {text : String} {v : Value}
    (h : ofScalar? tag isPlain text = some v) : v.distinctKeys = true := by
  unfold ofScalar? at h
  split at h
  · split_ifs at h
    · exact distinctKeys_of_ofPlain? h
    · cases h
      rfl
  · exact distinctKeys_of_bool? h
  · obtain ⟨n, -, h⟩ := Option.bind_eq_some_iff.1 h
    exact distinctKeys_of_ofInteger? h
  · exact distinctKeys_of_float? h
  · exact distinctKeys_of_null? h
  · split_ifs at h
    cases h
    rfl

theorem distinctKeys_of_lift {o : Option Value} {n k : Nat} {v : Value}
    (ho : ∀ v, o = some v → v.distinctKeys = true)
    (h : (StateT.lift o : Expansion Value) n = some (v, k)) : v.distinctKeys = true := by
  obtain ⟨w, hw, h⟩ := Option.bind_eq_some_iff.1 h
  cases h
  exact ho v hw

/-- The members of a mapping are set one after the other. -/
theorem distinctKeys_of_ofNode (d : Document) : ∀ (depth : Nat) (node : Node) {n k : Nat}
    {v : Value}, ofNode d depth node n = some (v, k) → v.distinctKeys = true
  | 0, node, n, k, v, h => by
    obtain ⟨expanded, l, -, h⟩ := expansion_bind h
    cases expanded with
    | scalar tag isPlain text =>
      exact distinctKeys_of_lift (fun _ => distinctKeys_of_ofScalar?) h
    | _ => cases h
  | depth + 1, node, n, k, v, h => by
    obtain ⟨expanded, l, -, h⟩ := expansion_bind h
    cases expanded with
    | scalar tag isPlain text =>
      exact distinctKeys_of_lift (fun _ => distinctKeys_of_ofScalar?) h
    | sequence tag items =>
      simp only [] at h
      split_ifs at h
      · cases h
      · obtain ⟨vs, j, hvs, h⟩ := expansion_bind h
        cases h
        rw [Value.distinctKeys, Value.distinctKeysOfItems_iff]
        intro w hw
        obtain ⟨x, -, l', j', hx⟩ := exists_of_mem_expansion hvs w hw
        exact distinctKeys_of_ofNode d depth x hx
    | mapping tag pairs =>
      simp only [] at h
      split_ifs at h
      · cases h
      · obtain ⟨ms, j, hms, h⟩ := expansion_bind h
        cases h
        refine Value.distinctKeys_obj.2 ⟨Assoc.nodup_keys_ofList ms, fun w hw => ?_⟩
        obtain ⟨m, hm, rfl⟩ := List.mem_map.1 (Assoc.mem_values_ofList hw)
        obtain ⟨x, -, l', j', hx⟩ := exists_of_mem_expansion hms m hm
        obtain ⟨key, l1, -, hx⟩ := expansion_bind hx
        obtain ⟨u, l2, hu, hx⟩ := expansion_bind hx
        cases hx
        exact distinctKeys_of_ofNode d depth x.2 hu
    | aliasOf number => cases h

end ZodGen.Yaml

namespace ZodGen.Document

/-- No object in a document that is read repeats a key. -/
theorem distinctKeys_of_parse {text : String} {doc : Value} (h : parse text = .ok doc) :
    doc.distinctKeys = true := by
  unfold parse at h
  split at h
  · simp [fail] at h
  · rename_i ms hms
    cases h
    obtain ⟨tokens, -, hms⟩ := Option.bind_eq_some_iff.1 hms
    obtain ⟨d, -, hms⟩ := Option.bind_eq_some_iff.1 hms
    split at hms
    · cases hms
    · obtain ⟨⟨v, k⟩, hv, heq⟩ := Option.map_eq_some_iff.1 hms
      cases heq
      exact Yaml.distinctKeys_of_ofNode d _ _ hv
  · simp [fail] at h

end ZodGen.Document
