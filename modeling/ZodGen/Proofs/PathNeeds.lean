import Mathlib.Data.List.Perm.Subperm
import Mathlib.Data.Set.Basic
import Mathlib.Order.Bounds.Defs
import ZodGen.Proofs.PathDocument

/-!
# What a path needs

A set of components is enough for a path item when it has the security schemes that the item and the
document ask for, and with the item and each of its own components what their references lead to
(`Suffices`). The search takes only components that every such set has, and what it takes is such a
set, so the document of a path keeps the least one, and nothing else of it changes
(`split_isLeast`).
-/

namespace ZodGen

/-! ## Under a value -/

namespace Value

/-- A value stands in another: it is the other, or stands in an item of it, or in a member of it
that may be entered. -/
inductive Under (enter : String → Value → Prop) (v : Value) : Value → Prop
  | refl : Under enter v v
  | item {w : Value} {items : List Value} (hw : w ∈ items) (h : Under enter v w) :
    Under enter v (.arr items)
  | member {key : String} {w : Value} {ms : List (String × Value)} (hw : (key, w) ∈ ms)
    (he : enter key w) (h : Under enter v w) : Under enter v (.obj ms)

/-- Somewhere in the value an object has this text under `$ref`. -/
def RefersTo (v : Value) (r : String) : Prop :=
  ∃ ms, (obj ms).Under (fun _ _ => True) v ∧ ("$ref", str r) ∈ ms

theorem mem_refsOfItems_iff {r : String} : ∀ {items : List Value},
    r ∈ refsOfItems items ↔ ∃ v ∈ items, r ∈ v.refs
  | [] => by simp [refsOfItems]
  | v :: items => by simp [refsOfItems, mem_refsOfItems_iff]

/-- The list of references has those that stand somewhere in a value. By induction on the value, and
back by induction on how an object stands in it. -/
theorem mem_refs_iff {r : String} {v : Value} : r ∈ v.refs ↔ v.RefersTo r := by
  constructor
  · intro h
    induction v using induction_inside with
    | arr items ih =>
      rw [refs, mem_refsOfItems_iff] at h
      obtain ⟨w, hw, hr⟩ := h
      obtain ⟨ms, hu, hm⟩ := ih w hw hr
      exact ⟨ms, .item hw hu, hm⟩
    | obj ms ih =>
      rw [refs, mem_refsOfMembers_iff] at h
      rcases h with hm | ⟨m, hw, hr⟩
      · exact ⟨ms, .refl, hm⟩
      · obtain ⟨ms', hu, hm⟩ := ih m hw hr
        exact ⟨ms', .member hw trivial hu, hm⟩
    | other v harr hobj => cases v <;> simp_all [refs, asArr?, asObj?]
  · rintro ⟨ms, hu, hm⟩
    induction hu with
    | refl =>
      rw [refs, mem_refsOfMembers_iff]
      exact .inl hm
    | item hw _ ih =>
      rw [refs, mem_refsOfItems_iff]
      exact ⟨_, hw, ih⟩
    | member hw _ _ ih =>
      rw [refs, mem_refsOfMembers_iff]
      exact .inr ⟨_, hw, ih⟩

end Value

namespace Document

open Reference (Target componentTarget)

section Schemes

/-- A list of requirements, one of which has the name as a key. -/
def Requires (list : Value) (name : String) : Prop :=
  ∃ items fields, list = .arr items ∧ .obj fields ∈ items ∧ name ∈ Assoc.keys fields

/-- A list under `security` is not entered. -/
def Entered (key : String) (v : Value) : Prop := ¬ (key = "security" ∧ v.asArr?.isSome)

/-- A path item asks for a security scheme by name, or the document does for all of them. -/
def AsksFor (doc item : Value) (name : String) : Prop :=
  (∃ list, doc.get? "security" = some list ∧ Requires list name)
    ∨ ∃ ms list, (Value.obj ms).Under Entered item ∧ ("security", list) ∈ ms ∧ Requires list name

theorem mem_requirementNames {list : Value} {name : String} :
    name ∈ requirementNames list ↔ Requires list name := by
  unfold requirementNames
  rw [List.mem_flatMap]
  constructor
  · rintro ⟨v, hv, hn⟩
    cases list with
    | arr items =>
      cases v with
      | obj fields => exact ⟨items, fields, rfl, hv, hn⟩
      | _ => simp [Value.asObj?, Assoc.keys] at hn
    | _ => simp [Value.asArr?] at hv
  · rintro ⟨items, fields, rfl, hm, hn⟩
    exact ⟨.obj fields, hm, hn⟩

theorem mem_schemeNamesOfItems {name : String} : ∀ {items : List Value},
    name ∈ schemeNamesOfItems items ↔ ∃ v ∈ items, name ∈ schemeNames v
  | [] => by simp [schemeNamesOfItems]
  | v :: items => by simp [schemeNamesOfItems, mem_schemeNamesOfItems]

/-- An object asks for a scheme by its own list under `security`, or in a member that is entered. A
list under `security` is read as requirements and not entered. -/
theorem mem_schemeNamesOfMembers {name : String} : ∀ {ms : List (String × Value)},
    name ∈ schemeNamesOfMembers ms ↔ (∃ list, ("security", list) ∈ ms ∧ Requires list name)
      ∨ ∃ m ∈ ms, Entered m.1 m.2 ∧ name ∈ schemeNames m.2
  | [] => by simp [schemeNamesOfMembers]
  | (key, v) :: ms => by
    have ih : name ∈ schemeNamesOfMembers ms ↔ _ := mem_schemeNamesOfMembers
    rw [schemeNamesOfMembers.eq_def]
    simp only [List.mem_append, ih, List.mem_cons, exists_eq_or_imp]
    split
    · rename_i items
      have hlist : ¬ Entered "security" (.arr items) := by simp [Entered, Value.asArr?]
      simp only [mem_requirementNames, Prod.mk.injEq, true_and, hlist, false_and, false_or,
        or_and_right, exists_or, exists_eq_left, or_assoc]
    · rename_i hnot
      have henter : Entered key v := by
        rintro ⟨rfl, hv⟩
        cases v with
        | arr items => exact hnot items rfl rfl
        | _ => simp [Value.asArr?] at hv
      -- Only a list holds requirements, and a list under `security` is not entered.
      have hno : ∀ list, ("security", list) = (key, v) → ¬ Requires list name := by
        rintro list heq ⟨items, -, rfl, -⟩
        cases heq
        exact henter ⟨rfl, rfl⟩
      constructor
      · rintro (h | ⟨list, hm, hr⟩ | h)
        · exact .inr (.inl ⟨henter, h⟩)
        · exact .inl ⟨list, .inr hm, hr⟩
        · exact .inr (.inr h)
      · rintro (⟨list, heq | hm, hr⟩ | ⟨-, h⟩ | h)
        · exact absurd hr (hno list heq)
        · exact .inr (.inl ⟨list, hm, hr⟩)
        · exact .inl h
        · exact .inr (.inr h)

/-- A path item asks for the schemes that some object in it requires, outside of other requirements.
By induction on the value, as in `mem_refs_iff`. -/
theorem mem_schemeNames_iff {v : Value} {name : String} : name ∈ schemeNames v ↔
    ∃ ms list, (Value.obj ms).Under Entered v ∧ ("security", list) ∈ ms ∧ Requires list name := by
  constructor
  · intro h
    induction v using Value.induction_inside with
    | arr items ih =>
      rw [schemeNames, mem_schemeNamesOfItems] at h
      obtain ⟨w, hw, hn⟩ := h
      obtain ⟨ms, list, hu, hm⟩ := ih w hw hn
      exact ⟨ms, list, .item hw hu, hm⟩
    | obj ms ih =>
      rw [schemeNames, mem_schemeNamesOfMembers] at h
      rcases h with ⟨list, hm⟩ | ⟨m, hw, he, hn⟩
      · exact ⟨ms, list, .refl, hm⟩
      · obtain ⟨ms', list, hu, hm⟩ := ih m hw hn
        exact ⟨ms', list, .member hw he hu, hm⟩
    | other v harr hobj => cases v <;> simp_all [schemeNames, Value.asArr?, Value.asObj?]
  · rintro ⟨ms, list, hu, hm⟩
    induction hu with
    | refl =>
      rw [schemeNames, mem_schemeNamesOfMembers]
      exact .inl ⟨list, hm⟩
    | item hw _ ih =>
      rw [schemeNames, mem_schemeNamesOfItems]
      exact ⟨_, hw, ih⟩
    | member hw he _ ih =>
      rw [schemeNames, mem_schemeNamesOfMembers]
      exact .inr ⟨_, hw, he, ih⟩

theorem mem_askedNames {doc item : Value} {name : String} :
    name ∈ schemeNames item ++ requirementNames ((doc.get? "security").getD .null)
      ↔ AsksFor doc item name := by
  rw [List.mem_append, mem_schemeNames_iff, mem_requirementNames, AsksFor, or_comm]
  refine or_congr_left ?_
  rcases doc.get? "security" with _ | list
  · simp [Requires]
  · simp

end Schemes

/-! ## What the search takes -/

/-- Every reference in a value that leads to a component leads to one in the set. -/
def LeadsInto (L : Set Target) (v : Value) : Prop :=
  ∀ r, v.RefersTo r → ∀ t, componentTarget r = .ok (some t) → t ∈ L

/-- A set of components that is enough for a path item. -/
structure Suffices (doc item : Value) (L : Set Target) : Prop where
  schemes : ∀ name, AsksFor doc item name → (component? doc ⟨"securitySchemes", name⟩).isSome →
    ⟨"securitySchemes", name⟩ ∈ L
  item : LeadsInto L item
  components : ∀ t ∈ L, ∀ v, component? doc t = some v → LeadsInto L v

namespace Search

section Justified

variable {all : Components} {L : Set Target} {s u : Search}

/-- A search that has taken only components of a set, and has only values to read whose references
lead into it. -/
structure Justified (all : Components) (L : Set Target) (s : Search) : Prop where
  taken : ∀ t, (all.find? t).isSome → s.pending.find? t = none → t ∈ L
  pending : ∀ t v, s.pending.find? t = some v → all.find? t = some v
  queue : ∀ v ∈ s.queue, LeadsInto L v

theorem Justified.reach (hL : ∀ t ∈ L, ∀ v, all.find? t = some v → LeadsInto L v)
    (h : Justified all L s) {t : Target} (ht : (all.find? t).isSome → t ∈ L) :
    Justified all L (s.reach t) := by
  unfold Search.reach
  split
  · rename_i v hv
    have hall := h.pending t v hv
    have htL : t ∈ L := ht (by simp [hall])
    refine ⟨fun t' hsome hnone => ?_, fun t' w hw => ?_, fun w hw => ?_⟩
    · rw [Components.find?_without] at hnone
      split_ifs at hnone with heq
      · exact heq ▸ htL
      · exact h.taken t' hsome hnone
    · rw [Components.find?_without] at hw
      split_ifs at hw
      exact h.pending t' w hw
    · rcases List.mem_append.1 hw with hw | hw
      · exact h.queue w hw
      · rw [List.mem_singleton.1 hw]
        exact hL t htL v hall
  · exact h

theorem Justified.reachAll (hL : ∀ t ∈ L, ∀ v, all.find? t = some v → LeadsInto L v)
    {rs : List String} {s : Search} (h : Justified all L s)
    (hrs : ∀ r ∈ rs, ∀ t, componentTarget r = .ok (some t) → t ∈ L)
    (hu : reachAll all rs s = .ok u) : Justified all L u :=
  reachAll_invariant (fun _ _ ht hs => hs.reach hL fun _ => ht) hrs h hu

/-- A search that starts in a set that is closed under references takes nothing but what is in the
set. -/
theorem Justified.run (hL : ∀ t ∈ L, ∀ v, all.find? t = some v → LeadsInto L v)
    (pending : Components) (queue : List Value) {left : Components}
    (h : Justified all L ⟨pending, queue⟩) (hrun : run all pending queue = .ok left) :
    Justified all L ⟨left, []⟩ := by
  fun_induction Search.run all pending queue with
  | case1 pending =>
    cases hrun
    exact h
  | case2 => simp at hrun
  | case3 pending v rest u hu ih =>
    have hrest : Justified all L ⟨pending, rest⟩ :=
      ⟨h.taken, h.pending, fun w hw => h.queue w (List.mem_cons_of_mem _ hw)⟩
    have hv := h.queue v List.mem_cons_self
    exact ih (hrest.reachAll hL (fun r hr => hv r (Value.mem_refs_iff.1 hr)) hu) hrun

theorem Justified.foldl_reach (hL : ∀ t ∈ L, ∀ v, all.find? t = some v → LeadsInto L v)
    {α : Type} (f : α → Target) {xs : List α} {s : Search} (h : Justified all L s)
    (hxs : ∀ x ∈ xs, (all.find? (f x)).isSome → f x ∈ L) :
    Justified all L (xs.foldl (fun s x => s.reach (f x)) s) :=
  foldl_reach_invariant (T := fun t => (all.find? t).isSome → t ∈ L)
    (fun _ _ ht hs => hs.reach hL ht) f hxs h

theorem find?_foldl_reach {α : Type} (f : α → Target) : ∀ {xs : List α} {s : Search} {x : α},
    x ∈ xs → (xs.foldl (fun s x => s.reach (f x)) s).pending.find? (f x) = none
  | y :: xs, s, x, hx => by
    rw [List.foldl_cons]
    rcases List.mem_cons.1 hx with rfl | hx
    · exact (extends_foldl_reach f xs _).find?_eq_none (find?_reach s (f x))
    · exact find?_foldl_reach f hx

end Justified

end Search

section Least

variable {doc item : Value} {left : Components}

/-- The components that a path item reaches, by those that it does not. -/
def reachedSet (doc : Value) (left : Components) : Set Target :=
  {t | (component? doc t).isSome ∧ left.find? t = none}

/-- What a search reaches is enough: it has the schemes asked for and all that references lead
to. -/
theorem suffices_reachedSet (hd : doc.distinctKeys = true) (h : unreached doc item = .ok left) :
    Suffices doc item (reachedSet doc left) := by
  have hend := unreached_ended h
  have hsettled : ∀ {v : Value}, Search.Settled (components doc) left v.refs →
      LeadsInto (reachedSet doc left) v := by
    intro v hv r hr t ht
    obtain ⟨o, ho, hall⟩ := hv r (Value.mem_refs_iff.2 hr)
    cases ho.symm.trans ht
    obtain ⟨hsome, hleft⟩ := hall t rfl
    exact ⟨by rwa [find?_components hd] at hsome, hleft⟩
  refine ⟨fun name hname hsome => ⟨hsome, ?_⟩, hsettled (hend.queued item List.mem_cons_self), ?_⟩
  · exact (Search.ended_run _ _ _ h).taken _
      (Search.find?_foldl_reach (fun name => ⟨"securitySchemes", name⟩)
        (mem_askedNames.2 hname))
  · rintro t ⟨-, hleft⟩ v hv
    exact hsettled (hend.settled t v (by rw [find?_components hd, hv]) hleft)

/-- What a search reaches lies in every set that is enough. -/
theorem reachedSet_subset (hd : doc.distinctKeys = true) (h : unreached doc item = .ok left)
    {L : Set Target} (hL : Suffices doc item L) : reachedSet doc left ⊆ L := by
  have hcomponents : ∀ t ∈ L, ∀ v, (components doc).find? t = some v → LeadsInto L v := by
    intro t ht v hv
    rw [find?_components hd] at hv
    exact hL.components t ht v hv
  have hstart : Search.Justified (components doc) L ⟨components doc, [item]⟩ := by
    refine ⟨fun t hsome hnone => by simp [hnone] at hsome, fun _ _ hv => hv, fun v hv => ?_⟩
    rw [List.mem_singleton.1 hv]
    exact hL.item
  have hschemes := hstart.foldl_reach hcomponents (fun name => ⟨"securitySchemes", name⟩)
    fun name hname hsome => hL.schemes name (mem_askedNames.1 hname)
      (by rwa [find?_components hd] at hsome)
  rintro t ⟨hsome, hleft⟩
  exact (hschemes.run hcomponents _ _ h).taken t (by rwa [find?_components hd]) hleft

/-- What a path item reaches is the least set of components that is enough for it. -/
theorem reachedSet_isLeast (hd : doc.distinctKeys = true) (h : unreached doc item = .ok left) :
    IsLeast {L | Suffices doc item L} (reachedSet doc left) :=
  ⟨suffices_reachedSet hd h, fun _ hL => reachedSet_subset hd h hL⟩

end Least

/-! ## The document of a path -/

section Kept

open Classical in
/-- The entries of a section that are in a set. -/
noncomputable def entriesIn (L : Set Target) (kind : String) (entries : Assoc Value) :
    Assoc Value :=
  entries.filter fun m => ⟨kind, m.1⟩ ∈ L

/-- The sections of a document with the components of a set and no others, in order; those left
empty are dropped. -/
noncomputable def sectionsIn (doc : Value) (L : Set Target) : Assoc Value :=
  ((doc.obj? "components").getD []).filterMap fun (kind, section_) =>
    match section_ with
    | .obj entries =>
      if (entriesIn L kind entries).isEmpty then none
      else some (kind, .obj (entriesIn L kind entries))
    | _ => none

/-- The members of a document that hold neither path items nor components. -/
def otherMembers (doc : Value) : Assoc Value :=
  (doc.asObj?.getD []).filter fun m => m.1 ≠ "paths" ∧ m.1 ≠ "components"

/-- A document with one path item, the components of a set, and all else as another has it. -/
structure Keeps (doc : Value) (path : String) (item : Value) (L : Set Target) (part : Value) :
    Prop where
  paths : part.get? "paths" = some (.obj [(path, item)])
  others : otherMembers part = otherMembers doc
  mem : ∀ t, (component? part t).isSome ↔ t ∈ L
  unchanged : ∀ t ∈ L, component? part t = component? doc t
  sections : L ≠ ∅ → part.get? "components" = some (.obj (sectionsIn doc L))
  absent : part.get? "components" = none ↔ L = ∅

variable {doc item part : Value} {path : String} {left : Components}

theorem keepReached_eq (hd : doc.distinctKeys = true) :
    keepReached doc left = sectionsIn doc (reachedSet doc left) := by
  refine List.filterMap_congr fun ⟨kind, s⟩ hs => ?_
  cases s with
  | obj entries =>
    have hentries : (entries.filter fun m => (left.find? ⟨kind, m.1⟩).isNone)
        = entriesIn (reachedSet doc left) kind entries := by
      refine List.filter_congr fun ⟨name, v⟩ hv => ?_
      have hcomponent := (component?_of_mem_section hd hs hv).1
      have hiff : ⟨kind, name⟩ ∈ reachedSet doc left ↔ left.find? ⟨kind, name⟩ = none := by
        simp [reachedSet, hcomponent]
      rw [Bool.eq_iff_iff, Option.isNone_iff_eq_none]
      exact hiff.symm.trans (@decide_eq_true_iff _ (_)).symm
    simp only [hentries]
  | _ => rfl

/-- No component is there twice. Sections differ in their kinds, and the entries of one section in
their names. -/
theorem nodup_components (hd : doc.distinctKeys = true) :
    ((components doc).map Prod.fst).Nodup := by
  unfold components
  rcases hs : doc.obj? "components" with _ | sections
  · exact List.nodup_nil
  rw [Option.getD_some, List.map_flatMap, List.nodup_flatMap]
  constructor
  · rintro ⟨kind, s⟩ hm
    cases s with
    | obj entries =>
      have hg : (Value.obj sections).get? kind = some (.obj entries) :=
        Assoc.get?_of_mem (nodup_keys_of_obj? hd hs) hm
      have hn := (Value.distinctKeys_obj.1
        (distinctKeys_of_get? (distinctKeys_of_get? hd (Value.get?_of_obj? hs)) hg)).1
      rw [List.map_map]
      have hinj : Function.Injective (Target.mk kind) := fun _ _ h => (Target.mk.inj h).2
      have := hn.map hinj
      rwa [Assoc.keys, List.map_map] at this
    | _ => exact List.nodup_nil
  · have hkeys : sections.Pairwise fun m m' => m.1 ≠ m'.1 :=
      List.pairwise_map.1 (nodup_keys_of_obj? hd hs)
    refine hkeys.imp fun {m m'} hne => List.disjoint_left.2 fun t ht ht' => ?_
    -- Targets of two sections differ in their kind.
    simp only [List.map_map, List.mem_map, Function.comp_apply] at ht ht'
    obtain ⟨e, -, he⟩ := ht
    obtain ⟨e', -, he'⟩ := ht'
    subst he
    exact hne (congrArg Target.kind he').symm

theorem mem_targets_iff {cs : Components} {t : Target} :
    t ∈ cs.map Prod.fst ↔ (cs.find? t).isSome := by
  simp [Components.find?]

/-- The search leaves as many components as there are exactly when it reaches none. -/
theorem length_eq_iff (hd : doc.distinctKeys = true) (h : unreached doc item = .ok left) :
    left.length = (components doc).length ↔ reachedSet doc left = ∅ := by
  have hsub := (unreached_ended h).sublist
  constructor
  · intro hlen
    refine Set.eq_empty_of_forall_notMem fun t ht => ?_
    obtain ⟨hsome, hleft⟩ := ht
    rw [hsub.eq_of_length hlen, find?_components hd] at hleft
    simp [hleft] at hsome
  · intro hempty
    have hsubset : (components doc).map Prod.fst ⊆ left.map Prod.fst := by
      intro t ht
      rw [mem_targets_iff, find?_components hd] at ht
      rw [mem_targets_iff]
      by_contra hnone
      have hmem : t ∈ reachedSet doc left := ⟨ht, by simpa using hnone⟩
      simp [hempty] at hmem
    have hle := (List.subperm_of_subset (nodup_components hd) hsubset).length_le
    rw [List.length_map, List.length_map] at hle
    exact Nat.le_antisymm hsub.length_le hle

theorem otherMembers_append (ms ms' : Assoc Value) :
    otherMembers (.obj (ms ++ ms')) = otherMembers (.obj ms) ++ otherMembers (.obj ms') :=
  List.filter_append ..

theorem otherMembers_topMembers :
    otherMembers (.obj (topMembers doc path item)) = otherMembers doc := by
  show (topMembers doc path item).filter _ = _
  unfold otherMembers topMembers
  rw [List.filter_filterMap, ← List.filterMap_eq_filter]
  refine List.filterMap_congr fun ⟨key, v⟩ _ => ?_
  by_cases hpaths : key = "paths"
  · simp [hpaths, Option.guard]
  · by_cases hcomponents : key = "components"
    · simp [hcomponents, Option.guard]
    · simp [hpaths, hcomponents, Option.guard]

theorem IsPart.keeps (h : IsPart doc path item left part) :
    Keeps doc path item (reachedSet doc left) part := by
  have hcomponents : part.get? "components" = if reachedSet doc left ≠ ∅ then
      some (.obj (sectionsIn doc (reachedSet doc left))) else none := by
    rw [h.get?_components, get?_componentMembers, keepReached_eq h.distinct]
    simp only [true_and, ne_eq, length_eq_iff h.distinct h.unreached]
  have hmem : ∀ t, (component? part t).isSome ↔ t ∈ reachedSet doc left := by
    intro t
    rw [h.component?_eq, reachedSet]
    split_ifs with hleft
    · simp_all
    · simp_all
  refine ⟨h.get?_paths, ?_, hmem, ?_, ?_, ?_⟩
  · rw [h.members, otherMembers_append, otherMembers_topMembers, componentMembers]
    split_ifs
    · exact List.append_nil _
    · exact List.append_nil _
  · rintro t ⟨-, hleft⟩
    rw [h.component?_eq, if_pos (by simp [hleft])]
  · intro hne
    rw [hcomponents, if_pos hne]
  · rw [hcomponents]
    split_ifs with hne
    · simp [hne]
    · simpa using hne

end Kept

/-- A split has the paths of the document in order. The document of each keeps the least set of
components that is enough for the path item, and nothing else of it changes but the path items. -/
theorem split_isLeast {doc : Value} {parts : Assoc Value} (hd : doc.distinctKeys = true)
    (h : split doc = .ok parts) :
    ∃ items, doc.obj? "paths" = some items ∧ List.Forall₂ (fun m p => p.1 = m.1
      ∧ ∃ L, IsLeast {L | Suffices doc m.2 L} L ∧ Keeps doc m.1 m.2 L p.2) items parts := by
  obtain ⟨items, hitems, hparts⟩ := Outcome.bind_eq_ok.1 h
  rw [paths_eq_ok] at hitems
  have hall := (List.forall₂_and_left ..).2 ⟨fun _ hm => hm, Outcome.mapM_eq_ok.1 hparts⟩
  refine ⟨items, hitems, hall.imp ?_⟩
  rintro ⟨path, item⟩ ⟨path', part⟩ ⟨hm, hp⟩
  obtain ⟨part', hpart, heq⟩ := Outcome.bind_eq_ok.1 hp
  cases heq
  obtain ⟨left, hleft, hmembers⟩ := forPath_eq_ok.1 hpart
  have hpart : IsPart doc path item left part := ⟨hd, ⟨items, hitems, hm⟩, hleft, hmembers⟩
  exact ⟨rfl, reachedSet doc left, reachedSet_isLeast hd hleft, hpart.keeps⟩

section Surgery

/-- A visit needs a pet and its owner, who refer to each other, and the scheme of its operation;
nothing needs the room. -/
def surgery : Value := .obj
  [("openapi", .str "3.1.0"),
   ("paths", .obj
    [("/visit", .obj
      [("get", .obj
        [("security", .arr [.obj [("key", .arr [])]]),
         ("schema", .obj [("$ref", .str "#/components/schemas/Pet/properties/name")])])]),
     ("/ping", .obj [("get", .obj [])])]),
   ("components", .obj
    [("schemas", .obj
      [("Room", .obj []),
       ("Pet", .obj [("$ref", .str "#/components/schemas/Owner")]),
       ("Owner", .obj [("$ref", .str "#/components/schemas/Pet")])]),
     ("headers", .obj [("Trace", .obj [])]),
     ("securitySchemes", .obj [("key", .obj []), ("token", .obj [])])])]

theorem targets_split_surgery :
    (split surgery).map (fun parts => parts.map fun p => (p.1, (components p.2).map Prod.fst))
      = .ok [("/visit", [⟨"schemas", "Pet"⟩, ⟨"schemas", "Owner"⟩, ⟨"securitySchemes", "key"⟩]),
        ("/ping", [])] := by
  decide +kernel

theorem split_isLeast_surgery : ∃ parts items,
    surgery.distinctKeys = true ∧ split surgery = .ok parts ∧ surgery.obj? "paths" = some items
      ∧ List.Forall₂ (fun m p => p.1 = m.1 ∧ ∃ L, IsLeast {L | Suffices surgery m.2 L} L
        ∧ Keeps surgery m.1 m.2 L p.2) items parts := by
  have hd : surgery.distinctKeys = true := by decide
  have htargets := targets_split_surgery
  rcases hs : split surgery with e | parts <;> rw [hs] at htargets
  · cases htargets
  · obtain ⟨items, hitems, hparts⟩ := split_isLeast hd hs
    exact ⟨parts, items, hd, rfl, hitems, hparts⟩

end Surgery

end Document

end ZodGen
