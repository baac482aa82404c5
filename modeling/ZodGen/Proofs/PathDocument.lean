import ZodGen.Proofs.Members
import ZodGen.Proofs.Outcome
import ZodGen.Proofs.References
import ZodGen.Proofs.SplitReach

/-!
# The document of a path

Read as a table of components, the document of a path has those of the whole document that the path
item reaches and no others (`IsPart.component?_eq`). A reference into a component therefore leads to
the same value in both as soon as the component is reached.
-/

namespace ZodGen.Document

open Reference (Target componentTarget)

/-- The component of a document with a target. -/
def component? (doc : Value) (t : Target) : Option Value :=
  ((doc.get? "components").bind (Value.get? t.kind)).bind (Value.get? t.name)

namespace Components

/-- The components of one section. -/
def ofSection (kind : String) (entries : Assoc Value) : Components :=
  entries.map fun (name, v) => (⟨kind, name⟩, v)

theorem find?_append (t : Target) (cs ds : Components) :
    find? t (cs ++ ds) = (find? t cs).or (find? t ds) := by
  unfold find?
  rw [List.find?_append, Option.map_or]

theorem find?_ofSection (t : Target) (kind : String) : ∀ entries : Assoc Value,
    find? t (ofSection kind entries) = if kind = t.kind then Assoc.get? t.name entries else none
  | [] => by simp [find?, ofSection, Assoc.get?]
  | (name, v) :: entries => by
    have ih := find?_ofSection t kind entries
    obtain ⟨k, n⟩ := t
    simp only [find?, ofSection, List.map_cons, List.find?_cons, Assoc.get?] at ih ⊢
    by_cases hk : kind = k
    · subst hk
      by_cases hn : name = n
      · simp [hn]
      · have : (Target.mk kind name == Target.mk kind n) = false := by simp [hn]
        simp only [this, ih, if_true, if_neg hn]
    · have : (Target.mk kind name == Target.mk k n) = false := by simp [hk]
      simp only [this, ih, if_neg hk]

/-- A component of all sections is looked up in the section of its kind, as no two sections have one
kind. -/
theorem find?_flatMap_ofSection (t : Target) : ∀ {sections : Assoc Value},
    (Assoc.keys sections).Nodup →
    find? t (sections.flatMap fun (kind, s) => ofSection kind (s.asObj?.getD []))
      = (Assoc.get? t.kind sections).bind (Value.get? t.name)
  | [], _ => rfl
  | (kind, s) :: sections, hn => by
    obtain ⟨hk, hn⟩ := List.nodup_cons.1 hn
    rw [List.flatMap_cons, find?_append, find?_ofSection, find?_flatMap_ofSection t hn, Assoc.get?]
    by_cases he : kind = t.kind
    · have hnone : Assoc.get? t.kind sections = none :=
        Assoc.get?_eq_none_of_notMem (he ▸ hk)
      rw [if_pos he, if_pos he, hnone]
      cases s <;> simp [Value.asObj?, Value.get?, Assoc.get?]
    · rw [if_neg he, if_neg he, Option.none_or]

end Components

theorem distinctKeys_of_get? {v w : Value} {key : String} (h : v.distinctKeys = true)
    (hw : v.get? key = some w) : w.distinctKeys = true := by
  cases v with
  | obj ms =>
    exact (Value.distinctKeys_obj.1 h).2 w
      (List.mem_map_of_mem (f := Prod.snd) (Schema.mem_of_get? hw))
  | _ => simp [Value.get?] at hw

theorem nodup_keys_of_obj? {v : Value} {key : String} {ms : Assoc Value}
    (h : v.distinctKeys = true) (hm : v.obj? key = some ms) : (Assoc.keys ms).Nodup :=
  (Value.distinctKeys_obj.1 (distinctKeys_of_get? h (Value.get?_of_obj? hm))).1

theorem component?_of_obj? {doc : Value} {sections : Assoc Value}
    (h : doc.obj? "components" = some sections) (t : Target) :
    component? doc t = (Assoc.get? t.kind sections).bind (Value.get? t.name) := by
  rw [component?, Value.get?_of_obj? h]
  rfl

theorem component?_of_not_obj? {doc : Value} (h : doc.obj? "components" = none) (t : Target) :
    component? doc t = none := by
  rw [component?]
  rcases hg : doc.get? "components" with _ | v
  · rfl
  · cases v with
    | obj ms => simp [Value.obj?, hg, Value.asObj?] at h
    | _ => rfl

/-- In a document that repeats no key, the list of components has what lookup by keys finds. -/
theorem find?_components {doc : Value} (h : doc.distinctKeys = true) (t : Target) :
    (components doc).find? t = component? doc t := by
  unfold components
  rcases hs : doc.obj? "components" with _ | sections
  · rw [component?_of_not_obj? hs]
    rfl
  · rw [component?_of_obj? hs]
    exact Components.find?_flatMap_ofSection t (nodup_keys_of_obj? h hs)

theorem component?_of_mem_section {doc : Value} (h : doc.distinctKeys = true) {kind name : String}
    {entries : Assoc Value} {v : Value}
    (hs : (kind, .obj entries) ∈ (doc.obj? "components").getD []) (hv : (name, v) ∈ entries) :
    component? doc ⟨kind, name⟩ = some v ∧ (Value.obj entries).distinctKeys = true := by
  rcases hc : doc.obj? "components" with _ | sections <;> rw [hc] at hs
  · simp at hs
  · have hkind := Assoc.get?_of_mem (nodup_keys_of_obj? h hc) hs
    have hg : (Value.obj sections).get? kind = some (.obj entries) := hkind
    have hd := distinctKeys_of_get? (distinctKeys_of_get? h (Value.get?_of_obj? hc)) hg
    refine ⟨?_, hd⟩
    rw [component?_of_obj? hc, hkind]
    exact Assoc.get?_of_mem (Value.distinctKeys_obj.1 hd).1 hv

/-! ## Walking into a component -/

theorem refs_subset_of_component? {doc v : Value} {t : Target} (h : component? doc t = some v) :
    v.refs ⊆ doc.refs := by
  obtain ⟨s, hs, hv⟩ := Option.bind_eq_some_iff.1 h
  obtain ⟨cs, hcs, hk⟩ := Option.bind_eq_some_iff.1 hs
  exact List.Subset.trans (Value.refs_subset_of_get? hv)
    (List.Subset.trans (Value.refs_subset_of_get? hk) (Value.refs_subset_of_get? hcs))

theorem step?_of_get? {v w : Value} {key : String} (h : v.get? key = some w) :
    Reference.step? v key = some w := by
  cases v with
  | obj ms => exact h
  | _ => simp [Value.get?] at h

theorem walk?_of_component? {doc v : Value} {t : Target} (h : component? doc t = some v)
    (ks : List String) :
    Reference.walk? doc ("components" :: t.kind :: t.name :: ks) = Reference.walk? v ks := by
  obtain ⟨s, hs, hv⟩ := Option.bind_eq_some_iff.1 h
  obtain ⟨cs, hcs, hk⟩ := Option.bind_eq_some_iff.1 hs
  simp only [Reference.walk?, step?_of_get? hcs, step?_of_get? hk, step?_of_get? hv,
    Option.bind_some]

theorem keys_of_componentTarget {r : String} {t : Target} (h : componentTarget r = .ok (some t)) :
    ∃ ks, Reference.keys r = .ok ("components" :: t.kind :: t.name :: ks) := by
  obtain ⟨ks, hks, ht⟩ := Outcome.bind_eq_ok.1 h
  split at ht
  · split_ifs at ht with hc
    · cases ht
      rw [hc.1] at hks
      exact ⟨_, hks⟩
    · simp at ht
  · simp at ht

/-- A reference into a component leads to the same in any two documents that have it. -/
theorem resolve_of_component? {doc part v : Value} {r : String} {t : Target}
    (hr : componentTarget r = .ok (some t)) (hd : component? doc t = some v)
    (hp : component? part t = some v) : Reference.resolve doc r = Reference.resolve part r := by
  obtain ⟨ks, hks⟩ := keys_of_componentTarget hr
  unfold Reference.resolve
  rw [hks]
  simp only [Outcome.ok_bind, walk?_of_component? hd, walk?_of_component? hp]

/-- What a reference into a component leads to has no references but those of the component. -/
theorem refs_subset_of_resolve_component {doc v w : Value} {r : String} {t : Target}
    (hr : componentTarget r = .ok (some t)) (hd : component? doc t = some v)
    (hw : Reference.resolve doc r = .ok w) : w.refs ⊆ v.refs := by
  obtain ⟨ks, hks⟩ := keys_of_componentTarget hr
  obtain ⟨ks', hks', hwalk⟩ := Reference.resolve_eq_ok.1 hw
  cases hks.symm.trans hks'
  rw [walk?_of_component? hd] at hwalk
  exact Reference.refs_subset_of_walk? hwalk

/-! ## The members of a path's document -/

/-- The members that do not hold components: those of the whole document, with one path item. -/
def topMembers (doc : Value) (path : String) (item : Value) : Assoc Value :=
  (doc.asObj?.getD []).filterMap fun (key, v) =>
    if key = "paths" then some (key, .obj [(path, item)])
    else if key = "components" then none
    else some (key, v)

/-- The member that holds the components, unless none is reached. -/
def componentMembers (doc : Value) (left : Components) : Assoc Value :=
  if left.length = (components doc).length then []
  else [("components", .obj (keepReached doc left))]

/-- The document of a path is there when the search ends, and is made of what it has left. -/
theorem forPath_eq_ok {doc item part : Value} {path : String} :
    forPath doc path item = .ok part ↔ ∃ left, unreached doc item = .ok left
      ∧ part = .obj (topMembers doc path item ++ componentMembers doc left) := by
  unfold forPath
  rw [Outcome.bind_eq_ok]
  refine exists_congr fun left => and_congr_right fun _ => ?_
  unfold componentMembers
  split_ifs
  · rw [List.append_nil]
    exact ⟨fun h => (Except.ok.inj h).symm, fun h => by rw [h]; rfl⟩
  · exact ⟨fun h => (Except.ok.inj h).symm, fun h => by rw [h]; rfl⟩

section Members

variable {doc item : Value} {path : String} {left : Components}

theorem mem_topMembers {m : String × Value} (h : m ∈ topMembers doc path item) :
    m = ("paths", .obj [(path, item)])
      ∨ m ∈ (doc.asObj?.getD []).filter fun m => m.1 != "paths" && m.1 != "components" := by
  obtain ⟨m', hm', h⟩ := List.mem_filterMap.1 h
  simp only [] at h
  split_ifs at h with hp hc
  · cases h
    exact .inl (by rw [hp])
  · cases h
    exact .inr (List.mem_filter.2 ⟨hm', by simp [hp, hc]⟩)

theorem get?_topMembers (hd : doc.distinctKeys = true) (key : String) :
    Assoc.get? key (topMembers doc path item) = (doc.get? key).bind fun v =>
      if key = "paths" then some (.obj [(path, item)])
      else if key = "components" then none else some v := by
  cases doc with
  | obj ms =>
    have hn := (Value.distinctKeys_obj.1 hd).1
    simp only [topMembers, Value.asObj?, Option.getD_some, Value.get?]
    rw [Assoc.get?_filterMap ?_ key hn]
    · congr 1
      funext v
      simp only []
      split_ifs <;> rfl
    · intro m m' h
      split_ifs at h <;> cases h <;> rfl
  | _ => rfl

theorem get?_componentMembers (key : String) : Assoc.get? key (componentMembers doc left)
    = if key = "components" ∧ left.length ≠ (components doc).length then
        some (.obj (keepReached doc left)) else none := by
  unfold componentMembers
  by_cases hl : left.length = (components doc).length
  · simp [hl, Assoc.get?]
  · by_cases hk : key = "components"
    · simp [hl, Assoc.get?, hk]
    · simp [hl, Assoc.get?, hk, Ne.symm hk]

/-- The entries of a section that are reached. -/
def reachedEntries (left : Components) (kind : String) (entries : Assoc Value) : Assoc Value :=
  entries.filter fun m => (left.find? ⟨kind, m.1⟩).isNone

/-- What is kept of a section: one left empty is dropped. -/
def keptSection (left : Components) (kind : String) (section_ : Value) : Option Value :=
  match section_ with
  | .obj entries =>
    if (reachedEntries left kind entries).isEmpty then none
    else some (.obj (reachedEntries left kind entries))
  | _ => none

theorem get?_keepReached (hd : doc.distinctKeys = true) (kind : String) :
    Assoc.get? kind (keepReached doc left)
      = (Assoc.get? kind ((doc.obj? "components").getD [])).bind (keptSection left kind) := by
  have hn : (Assoc.keys ((doc.obj? "components").getD [])).Nodup := by
    rcases hs : doc.obj? "components" with _ | sections
    · exact List.nodup_nil
    · exact nodup_keys_of_obj? hd hs
  unfold keepReached
  rw [Assoc.get?_filterMap ?_ kind hn]
  · congr 1
    funext s
    cases s with
    | obj entries =>
      rw [keptSection, apply_ite (Option.map Prod.snd)]
      rfl
    | _ => rfl
  · rintro ⟨kind, s⟩ m' h
    cases s with
    | obj entries =>
      simp only [] at h
      split_ifs at h
      cases h
      rfl
    | _ => simp at h

theorem mem_keepReached {m : String × Value} (h : m ∈ keepReached doc left) : ∃ entries,
    (m.1, .obj entries) ∈ (doc.obj? "components").getD []
      ∧ m.2 = .obj (reachedEntries left m.1 entries) := by
  obtain ⟨⟨kind, s⟩, hm', h⟩ := List.mem_filterMap.1 h
  cases s with
  | obj entries =>
    simp only [] at h
    split_ifs at h
    cases h
    exact ⟨entries, hm', rfl⟩
  | _ => simp at h

/-- A section that is dropped had nothing to find. -/
theorem obj?_keptSection (kind : String) (s : Value) :
    ((keptSection left kind s).bind Value.asObj?).getD []
      = reachedEntries left kind (s.asObj?.getD []) := by
  cases s with
  | obj entries =>
    simp only [keptSection, Value.asObj?, Option.getD_some]
    split_ifs with he
    · rw [List.isEmpty_iff.1 he]
      rfl
    · rfl
  | _ => rfl

theorem get?_reachedEntries (kind name : String) {entries : Assoc Value}
    (hn : (Assoc.keys entries).Nodup) : Assoc.get? name (reachedEntries left kind entries)
      = if (left.find? ⟨kind, name⟩).isNone then Assoc.get? name entries else none := by
  rw [reachedEntries, Assoc.get?_filter _ name hn]
  rcases Assoc.get? name entries with _ | v <;> simp [Option.filter]

theorem get?_of_asObj? {o : Option Value} (name : String) :
    o.bind (Value.get? name) = Assoc.get? name ((o.bind Value.asObj?).getD []) := by
  rcases o with _ | v
  · rfl
  · cases v <;> rfl

theorem component?_keepReached (hd : doc.distinctKeys = true) (t : Target) :
    (Assoc.get? t.kind (keepReached doc left)).bind (Value.get? t.name)
      = if (left.find? t).isNone then component? doc t else none := by
  rw [get?_keepReached hd]
  rcases hs : doc.obj? "components" with _ | sections
  · simp [component?_of_not_obj? hs, Assoc.get?]
  · rw [Option.getD_some, component?_of_obj? hs]
    rcases hk : Assoc.get? t.kind sections with _ | s
    · simp
    · have hsec : (Value.obj sections).distinctKeys = true :=
        distinctKeys_of_get? hd (Value.get?_of_obj? hs)
      have hg : (Value.obj sections).get? t.kind = some s := hk
      have hn : (Assoc.keys (s.asObj?.getD [])).Nodup := by
        cases s with
        | obj entries => exact (Value.distinctKeys_obj.1 (distinctKeys_of_get? hsec hg)).1
        | _ => exact List.nodup_nil
      rw [Option.bind_some, get?_of_asObj?, obj?_keptSection, get?_reachedEntries _ _ hn,
        get?_of_asObj?]
      rfl

end Members

/-! ## Parts of a document -/

/-- One document of a split: `part` is what the path item needs of a document that repeats no key,
and `left` are the components it does not reach. -/
structure IsPart (doc : Value) (path : String) (item : Value) (left : Components) (part : Value) :
    Prop where
  distinct : doc.distinctKeys = true
  mem_paths : ∃ items, doc.obj? "paths" = some items ∧ (path, item) ∈ items
  unreached : unreached doc item = .ok left
  members : part = .obj (topMembers doc path item ++ componentMembers doc left)

theorem paths_eq_ok {doc : Value} {items : Assoc Value} :
    paths doc = .ok items ↔ doc.obj? "paths" = some items := by
  unfold paths
  rcases doc.obj? "paths" with _ | ms <;> simp [fail]

theorem isPart_of_split {doc : Value} {parts : Assoc Value} (hd : doc.distinctKeys = true)
    (h : split doc = .ok parts) {path : String} {part : Value} (hp : (path, part) ∈ parts) :
    ∃ item left, IsPart doc path item left part := by
  obtain ⟨items, hitems, hparts⟩ := Outcome.bind_eq_ok.1 h
  obtain ⟨⟨path', item⟩, hmem, hm⟩ := Outcome.exists_of_mem_mapM hparts hp
  obtain ⟨part', hpart, heq⟩ := Outcome.bind_eq_ok.1 hm
  cases heq
  obtain ⟨left, hleft, heq⟩ := forPath_eq_ok.1 hpart
  exact ⟨item, left, hd, ⟨items, paths_eq_ok.1 hitems, hmem⟩, hleft, heq⟩

namespace IsPart

variable {doc item part : Value} {path : String} {left : Components}

theorem get?_paths (h : IsPart doc path item left part) :
    part.get? "paths" = some (.obj [(path, item)]) := by
  obtain ⟨items, hitems, -⟩ := h.mem_paths
  rw [h.members, Value.get?, Assoc.get?_append, get?_topMembers h.distinct,
    Value.get?_of_obj? hitems]
  rfl

theorem get?_components (h : IsPart doc path item left part) :
    part.get? "components" = Assoc.get? "components" (componentMembers doc left) := by
  rw [h.members, Value.get?, Assoc.get?_append, get?_topMembers h.distinct]
  simp

/-- If nothing is reached, what is left is everything. -/
theorem left_eq (h : IsPart doc path item left part)
    (hlen : left.length = (components doc).length) : left = components doc :=
  (unreached_ended h.unreached).sublist.eq_of_length hlen

/-- Among the components, the document of a path has those that the path item reaches. -/
theorem component?_eq (h : IsPart doc path item left part) (t : Target) :
    component? part t = if (left.find? t).isNone then component? doc t else none := by
  rw [component?, h.get?_components, get?_componentMembers]
  by_cases hlen : left.length = (components doc).length
  · rw [if_neg (by simp [hlen]), h.left_eq hlen, find?_components h.distinct]
    rcases component? doc t with _ | v <;> simp
  · rw [if_pos ⟨rfl, hlen⟩]
    exact component?_keepReached h.distinct t

/-- A reference that the path item or a reached component has. -/
def Carries (doc item : Value) (left : Components) (r : String) : Prop :=
  r ∈ item.refs ∨ ∃ t v, component? doc t = some v ∧ left.find? t = none ∧ r ∈ v.refs

theorem refs_item_subset (h : IsPart doc path item left part) : item.refs ⊆ doc.refs := by
  obtain ⟨items, hitems, hm⟩ := h.mem_paths
  exact List.Subset.trans (Value.refs_subset_of_mem_members hm)
    (Value.refsOfMembers_subset_of_obj? hitems)

theorem refs_item_subset_part (h : IsPart doc path item left part) : item.refs ⊆ part.refs := by
  have hp := Value.refs_subset_of_get? h.get?_paths
  rw [Value.refs] at hp
  exact List.Subset.trans (Value.refs_subset_of_mem_members List.mem_cons_self) hp

theorem component?_of_reached (h : IsPart doc path item left part) {t : Target} {v : Value}
    (hv : component? doc t = some v) (hleft : left.find? t = none) :
    component? part t = some v := by
  rw [h.component?_eq, if_pos (by simp [hleft]), hv]

/-- The references that the path item and the reached components have are in the document of the
path. -/
theorem mem_refs_of_carries (h : IsPart doc path item left part) {r : String}
    (hr : Carries doc item left r) : r ∈ part.refs := by
  rcases hr with hr | ⟨t, v, hv, hleft, hr⟩
  · exact h.refs_item_subset_part hr
  · exact refs_subset_of_component? (h.component?_of_reached hv hleft) hr

/-- A component that a carried reference names is in the document and reached. -/
theorem reached_of_carries (h : IsPart doc path item left part) {r : String}
    (hr : Carries doc item left r) {t : Target} (ht : componentTarget r = .ok (some t)) :
    ∃ v, component? doc t = some v ∧ left.find? t = none := by
  have hend := unreached_ended h.unreached
  have hset : ∃ o, componentTarget r = .ok o
      ∧ ∀ t, o = some t → ((components doc).find? t).isSome ∧ left.find? t = none := by
    rcases hr with hr | ⟨u, v, hu, hleft, hr⟩
    · exact hend.queued item List.mem_cons_self r hr
    · exact hend.settled u v (by rw [find?_components h.distinct, hu]) hleft r hr
  obtain ⟨o, ho, hall⟩ := hset
  cases ho.symm.trans ht
  obtain ⟨hsome, hleft⟩ := hall t rfl
  rw [find?_components h.distinct] at hsome
  obtain ⟨v, hv⟩ := Option.isSome_iff_exists.1 hsome
  exact ⟨v, hv, hleft⟩

end IsPart

end ZodGen.Document
