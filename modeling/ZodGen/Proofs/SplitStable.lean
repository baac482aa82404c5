import ZodGen.Proofs.PathNeeds

/-!
# The document of a path by itself

The document of a path has every component that its own references lead into, so such a reference
leads in it where it leads in the whole document (`resolve_of_split`). When it is split in turn the
search finds all it asks for and leaves nothing, and the document comes out as it went in
(`split_of_split`).
-/

namespace ZodGen.Document

open Reference (Target componentTarget)

/-! ## References -/

section Resolve

variable {doc item part : Value} {path : String} {left : Components}

/-- A reference in the path item of a path, or in a component. -/
def RefersWithin (doc : Value) (path r : String) : Prop :=
  (∃ item, (doc.get? "paths").bind (Value.get? path) = some item ∧ item.RefersTo r)
    ∨ ∃ t v, component? doc t = some v ∧ v.RefersTo r

/-- A reference that the document of a path has in its path item or a component is one that the
search came to. -/
theorem IsPart.carries_of_refersWithin (h : IsPart doc path item left part) {r : String}
    (hr : RefersWithin part path r) : IsPart.Carries doc item left r := by
  rcases hr with ⟨item', hitem, hr⟩ | ⟨t, v, hv, hr⟩
  · rw [h.get?_paths] at hitem
    simp only [Option.bind_some, Value.get?, Assoc.get?, if_true, Option.some.injEq] at hitem
    subst hitem
    exact .inl (Value.mem_refs_iff.2 hr)
  · rw [h.component?_eq] at hv
    split_ifs at hv with hleft
    exact .inr ⟨t, v, hv, Option.isNone_iff_eq_none.1 hleft, Value.mem_refs_iff.2 hr⟩

/-- A reference whose keys can be read is found or not; it does not fail in any other way. -/
theorem resolve_cases (root : Value) {r : String} {ks : List String}
    (h : Reference.keys r = .ok ks) : (∃ v, Reference.resolve root r = .ok v)
      ∨ Reference.resolve root r = fail .referenceNotFound r := by
  unfold Reference.resolve
  rw [h, Outcome.ok_bind]
  rcases Reference.walk? root ks with _ | v
  · exact .inr rfl
  · exact .inl ⟨v, rfl⟩

end Resolve

/-- A reference into a component means the same before and after a split: it leads to the same value
in the document of a path and in the whole document, or is not found in either. -/
theorem resolve_of_split {doc : Value} {parts : Assoc Value} (hd : doc.distinctKeys = true)
    (h : split doc = .ok parts) {path : String} {part : Value} (hp : (path, part) ∈ parts)
    {r : String} (hr : RefersWithin part path r) {t : Target}
    (ht : componentTarget r = .ok (some t)) :
    (∃ v, Reference.resolve part r = .ok v ∧ Reference.resolve doc r = .ok v)
      ∨ Reference.resolve part r = fail .referenceNotFound r
        ∧ Reference.resolve doc r = fail .referenceNotFound r := by
  obtain ⟨item, left, hpart⟩ := isPart_of_split hd h hp
  obtain ⟨v, hv, hleft⟩ := hpart.reached_of_carries (hpart.carries_of_refersWithin hr) ht
  have hsame := resolve_of_component? ht hv (hpart.component?_of_reached hv hleft)
  obtain ⟨ks, hks⟩ := keys_of_componentTarget ht
  rw [← hsame]
  rcases resolve_cases doc hks with ⟨w, hw⟩ | hw
  · exact .inl ⟨w, hw, hw⟩
  · exact .inr ⟨hw, hw⟩

section Depot

/-- A reference through a key with a slash and one with a blank. -/
def netWeight : String := "#/components/schemas/box~1bag/properties/net%20weight"

/-- A reference into a list that is too short for it. -/
def eighthSize : String := "#/components/schemas/Crate/enum/7"

def stock : Value := .obj
  [("get", .obj
    [("schema", .obj [("$ref", .str netWeight)]), ("other", .obj [("$ref", .str eighthSize)])])]

/-- The components come first. One section is no object, and one component is not needed. -/
def depot : Value := .obj
  [("components", .obj
    [("x-owner", .str "depot"),
     ("schemas", .obj
      [("Unused", .obj []),
       ("box/bag", .obj [("properties", .obj [("net weight", .obj [("type", .str "number")])])]),
       ("Crate", .obj [("enum", .arr [.str "small", .str "large"])])]),
     ("securitySchemes", .obj [("key", .obj [])])]),
   ("security", .arr [.obj [("key", .arr [])]]),
   ("paths", .obj [("/stock", stock), ("/ping", .obj [])]),
   ("openapi", .str "3.1.0")]

theorem exists_split_depot : ∃ parts part, split depot = .ok parts ∧ ("/stock", part) ∈ parts
    ∧ (part.get? "paths").bind (Value.get? "/stock") = some stock := by
  have hd : depot.distinctKeys = true := by decide +kernel
  have hkeys : (split depot).map Assoc.keys = .ok ["/stock", "/ping"] := by decide +kernel
  rcases hs : split depot with e | parts <;> rw [hs] at hkeys
  · cases hkeys
  · have hmem : "/stock" ∈ Assoc.keys parts := by
      rw [show Assoc.keys parts = _ from Except.ok.inj hkeys]
      exact List.mem_cons_self
    obtain ⟨⟨path, part⟩, hp, hpath⟩ := List.mem_map.1 hmem
    cases hpath
    obtain ⟨item, left, hpart⟩ := isPart_of_split hd hs hp
    obtain ⟨items, hitems, hm⟩ := hpart.mem_paths
    cases hitems
    have hitem : item = stock := by simpa using hm
    refine ⟨parts, part, rfl, hp, ?_⟩
    rw [hpart.get?_paths, hitem]
    rfl

theorem resolve_of_split_depot : ∃ parts part, split depot = .ok parts ∧ ("/stock", part) ∈ parts
    ∧ (∃ v, Reference.resolve part netWeight = .ok v ∧ Reference.resolve depot netWeight = .ok v)
    ∧ Reference.resolve part eighthSize = fail .referenceNotFound eighthSize
    ∧ Reference.resolve depot eighthSize = fail .referenceNotFound eighthSize := by
  have hd : depot.distinctKeys = true := by decide +kernel
  obtain ⟨parts, part, hs, hp, hitem⟩ := exists_split_depot
  have hrefers : ∀ r ∈ stock.refs, RefersWithin part "/stock" r :=
    fun r hr => .inl ⟨stock, hitem, Value.mem_refs_iff.1 hr⟩
  have hbox : componentTarget netWeight = .ok (some ⟨"schemas", "box/bag"⟩) := by decide +kernel
  have hcrate : componentTarget eighthSize = .ok (some ⟨"schemas", "Crate"⟩) := by decide +kernel
  refine ⟨parts, part, hs, hp, ?_, ?_⟩
  · have hfound : (Reference.resolve depot netWeight).isOk = true := by decide +kernel
    rcases resolve_of_split hd hs hp (hrefers netWeight (by decide)) hbox with h | ⟨-, h⟩
    · exact h
    · rw [h] at hfound
      cases hfound
  · have hmissing : (Reference.resolve depot eighthSize).isOk = false := by decide +kernel
    rcases resolve_of_split hd hs hp (hrefers eighthSize (by decide)) hcrate with ⟨v, -, h⟩ | h
    · rw [h] at hmissing
      cases hmissing
    · exact h

end Depot

/-! ## Keys of a path's document -/

section Keys

variable {doc item part : Value} {path : String} {left : Components}

theorem distinctKeys_reachedEntries {kind : String} {entries : Assoc Value}
    (h : (Value.obj entries).distinctKeys = true) :
    (Value.obj (reachedEntries left kind entries)).distinctKeys = true := by
  obtain ⟨hn, hv⟩ := Value.distinctKeys_obj.1 h
  have hsub : (reachedEntries left kind entries).Sublist entries := List.filter_sublist
  exact Value.distinctKeys_obj.2
    ⟨hn.sublist (hsub.map Prod.fst), fun v hm => hv v ((hsub.map Prod.snd).subset hm)⟩

theorem distinctKeys_keepReached (hd : doc.distinctKeys = true) :
    (Value.obj (keepReached doc left)).distinctKeys = true := by
  have hsections : (Value.obj ((doc.obj? "components").getD [])).distinctKeys = true := by
    rcases hs : doc.obj? "components" with _ | sections
    · rfl
    · exact distinctKeys_of_get? hd (Value.get?_of_obj? hs)
  obtain ⟨hn, hv⟩ := Value.distinctKeys_obj.1 hsections
  refine Value.distinctKeys_obj.2
    ⟨hn.sublist (Assoc.keys_filterMap_sublist (fun m m' h => ?_) _), fun v hm => ?_⟩
  · obtain ⟨kind, s⟩ := m
    cases s with
    | obj entries =>
      simp only [] at h
      split_ifs at h
      cases h
      rfl
    | _ => simp at h
  · obtain ⟨m, hmem, rfl⟩ := List.mem_map.1 hm
    obtain ⟨entries, hentries, heq⟩ := mem_keepReached hmem
    rw [heq]
    exact distinctKeys_reachedEntries (hv _ (List.mem_map_of_mem (f := Prod.snd) hentries))

theorem mem_componentMembers {m : String × Value} (h : m ∈ componentMembers doc left) :
    m = ("components", .obj (keepReached doc left)) := by
  unfold componentMembers at h
  split_ifs at h
  · simp at h
  · exact List.mem_singleton.1 h

theorem distinctKeys_topMembers (hd : doc.distinctKeys = true) (hi : item.distinctKeys = true) :
    (Value.obj (topMembers doc path item)).distinctKeys = true := by
  cases doc with
  | obj ms =>
    obtain ⟨hn, hv⟩ := Value.distinctKeys_obj.1 hd
    refine Value.distinctKeys_obj.2
      ⟨hn.sublist (Assoc.keys_filterMap_sublist (fun m m' h => ?_) ms), fun v hm => ?_⟩
    · simp only [] at h
      split_ifs at h <;> cases h <;> rfl
    · obtain ⟨m, hmem, rfl⟩ := List.mem_map.1 hm
      rcases mem_topMembers hmem with rfl | hmem
      · simpa [Value.distinctKeys_obj, Assoc.keys, Assoc.values] using hi
      · exact hv _ (List.mem_map_of_mem (List.mem_filter.1 hmem).1)
  | _ => rfl

theorem IsPart.distinctKeys (h : IsPart doc path item left part) : part.distinctKeys = true := by
  obtain ⟨items, hitems, hm⟩ := h.mem_paths
  have hpaths := distinctKeys_of_get? h.distinct (Value.get?_of_obj? hitems)
  have hitem := (Value.distinctKeys_obj.1 hpaths).2 item (List.mem_map_of_mem (f := Prod.snd) hm)
  rw [h.members]
  refine Value.distinctKeys_append (distinctKeys_topMembers h.distinct hitem) ?_ ?_
  · refine Value.distinctKeys_obj.2 ⟨?_, fun v hv => ?_⟩
    · unfold componentMembers
      split_ifs
      · exact List.nodup_nil
      · exact List.nodup_singleton _
    · obtain ⟨m, hmem, rfl⟩ := List.mem_map.1 hv
      rw [mem_componentMembers hmem]
      exact distinctKeys_keepReached h.distinct
  · intro m hm m' hm'
    rw [mem_componentMembers hm']
    rcases mem_topMembers hm with rfl | hm
    · simp
    · have hkey := (List.mem_filter.1 hm).2
      simp only [Bool.and_eq_true, bne_iff_ne] at hkey
      exact hkey.2

end Keys

/-! ## Searches that find all they ask for -/

namespace Search

section Complete

variable {all : Components} {s : Search}

/-- A search that has only values to read, and only components to reach, whose references lead to
components that are there. -/
structure Complete (all : Components) (s : Search) : Prop where
  queue : ∀ v ∈ s.queue, Settled all [] v.refs
  pending : ∀ t v, s.pending.find? t = some v → Settled all [] v.refs

theorem Complete.reach (h : Complete all s) (t : Target) : Complete all (s.reach t) := by
  unfold Search.reach
  split
  · rename_i v hv
    refine ⟨fun w hw => ?_, fun u w hw => ?_⟩
    · rcases List.mem_append.1 hw with hw | hw
      · exact h.queue w hw
      · rw [List.mem_singleton.1 hw]
        exact h.pending t v hv
    · rw [Components.find?_without] at hw
      split_ifs at hw
      exact h.pending u w hw
  · exact h

theorem Complete.foldl_reach {α : Type} (f : α → Target) (xs : List α) {s : Search}
    (h : Complete all s) : Complete all (xs.foldl (fun s x => s.reach (f x)) s) :=
  foldl_reach_invariant (T := fun _ => True) (fun _ t _ hs => hs.reach t) f (fun _ _ => trivial) h

theorem Complete.exists_reachAll : ∀ {rs : List String} {s : Search}, Complete all s →
    Settled all [] rs → ∃ u, reachAll all rs s = .ok u ∧ Complete all u
  | [], s, h, _ => ⟨s, rfl, h⟩
  | r :: rs, s, h, hrs => by
    obtain ⟨⟨o, ho, hsome⟩, hrest⟩ := List.forall_mem_cons.1 hrs
    simp only [reachAll, ho]
    rcases o with _ | t
    · exact h.exists_reachAll hrest
    · have hfound : ¬ (all.find? t).isNone := by
        simpa [Option.isSome_iff_ne_none] using (hsome t rfl).1
      simp only [hfound]
      exact (h.reach t).exists_reachAll hrest

/-- A complete search comes to an end without an error. -/
theorem Complete.exists_run (pending : Components) (queue : List Value)
    (h : Complete all ⟨pending, queue⟩) : ∃ left, run all pending queue = .ok left := by
  fun_induction Search.run all pending queue with
  | case1 pending => exact ⟨pending, rfl⟩
  | case2 pending v rest e he =>
    have hrest : Complete all ⟨pending, rest⟩ :=
      ⟨fun w hw => h.queue w (List.mem_cons_of_mem _ hw), h.pending⟩
    obtain ⟨u, hu, -⟩ := hrest.exists_reachAll (h.queue v List.mem_cons_self)
    rw [hu] at he
    cases he
  | case3 pending v rest u hu ih =>
    have hrest : Complete all ⟨pending, rest⟩ :=
      ⟨fun w hw => h.queue w (List.mem_cons_of_mem _ hw), h.pending⟩
    obtain ⟨u', hu', hcomplete⟩ := hrest.exists_reachAll (h.queue v List.mem_cons_self)
    cases hu.symm.trans hu'
    exact ih hcomplete

end Complete

end Search

/-! ## Splitting again -/

theorem topMembers_append (ms ms' : Assoc Value) (path : String) (item : Value) :
    topMembers (.obj (ms ++ ms')) path item
      = topMembers (.obj ms) path item ++ topMembers (.obj ms') path item :=
  List.filterMap_append

theorem topMembers_topMembers (doc : Value) (path : String) (item : Value) :
    topMembers (.obj (topMembers doc path item)) path item = topMembers doc path item := by
  show (topMembers doc path item).filterMap _ = _
  unfold topMembers
  rw [List.filterMap_filterMap]
  refine List.filterMap_congr fun ⟨key, v⟩ _ => ?_
  by_cases hpaths : key = "paths"
  · simp [hpaths]
  · by_cases hcomponents : key = "components" <;> simp [hpaths, hcomponents]

theorem entriesIn_entriesIn (L : Set Target) (kind : String) (entries : Assoc Value) :
    entriesIn L kind (entriesIn L kind entries) = entriesIn L kind entries := by
  unfold entriesIn
  rw [List.filter_filter]
  simp

namespace IsPart

variable {doc item part : Value} {path : String} {left : Components}

theorem settled_of_settled (h : IsPart doc path item left part) {rs : List String}
    (hrs : Search.Settled (components doc) left rs) : Search.Settled (components part) [] rs := by
  intro r hr
  obtain ⟨o, ho, hall⟩ := hrs r hr
  refine ⟨o, ho, fun t ht => ⟨?_, rfl⟩⟩
  obtain ⟨hsome, hleft⟩ := hall t ht
  rw [find?_components h.distinct] at hsome
  rw [find?_components h.distinctKeys, h.component?_eq, hleft]
  exact hsome

/-- In the document of a path, all that its components refer to is there. -/
theorem complete (h : IsPart doc path item left part) :
    Search.Complete (components part) ⟨components part, [item]⟩ := by
  have hend := unreached_ended h.unreached
  refine ⟨fun v hv => ?_, fun t v hv => ?_⟩
  · rw [List.mem_singleton.1 hv]
    exact h.settled_of_settled (hend.queued item List.mem_cons_self)
  · rw [find?_components h.distinctKeys, h.component?_eq] at hv
    split_ifs at hv with hleft
    rw [← find?_components h.distinct] at hv
    exact h.settled_of_settled (hend.settled t v hv (Option.isNone_iff_eq_none.1 hleft))

theorem exists_unreached (h : IsPart doc path item left part) :
    ∃ left', Document.unreached part item = .ok left' :=
  (h.complete.foldl_reach (fun name => ⟨"securitySchemes", name⟩) _).exists_run _ _

theorem get?_security (h : IsPart doc path item left part) :
    part.get? "security" = doc.get? "security" := by
  rw [h.members, Value.get?, Assoc.get?_append, get?_topMembers h.distinct, get?_componentMembers]
  rcases doc.get? "security" with _ | list <;> rfl

/-- The search in the document of a path reaches what the search in the whole document reached. -/
theorem reachedSet_eq (h : IsPart doc path item left part) {left' : Components}
    (h' : Document.unreached part item = .ok left') :
    reachedSet part left' = reachedSet doc left := by
  have hkeeps := h.keeps
  have hpart := suffices_reachedSet h.distinctKeys h'
  refine Set.Subset.antisymm (fun t ht => (hkeeps.mem t).1 ht.1) ?_
  refine reachedSet_subset h.distinct h.unreached ⟨fun name hname hsome => ?_, hpart.item, ?_⟩
  · have hscheme := (suffices_reachedSet h.distinct h.unreached).schemes name hname hsome
    refine hpart.schemes name ?_ ((hkeeps.mem _).2 hscheme)
    unfold AsksFor at hname ⊢
    rwa [h.get?_security]
  · intro t ht v hv
    have hmem := (hkeeps.mem t).1 ht.1
    rw [← hkeeps.unchanged t hmem] at hv
    exact hpart.components t ht v hv

theorem topMembers_eq (h : IsPart doc path item left part) :
    topMembers part path item = topMembers doc path item := by
  rw [h.members, topMembers_append, topMembers_topMembers]
  unfold componentMembers
  split_ifs
  · exact List.append_nil _
  · exact List.append_nil _

/-- The sections kept for a set are the same in the whole document and in that of a path, as long as
the set is not empty. Otherwise the document of a path has none. -/
theorem sectionsIn_eq (h : IsPart doc path item left part) (hne : reachedSet doc left ≠ ∅) :
    sectionsIn part (reachedSet doc left) = sectionsIn doc (reachedSet doc left) := by
  have hsections := h.keeps.sections hne
  rw [sectionsIn, Value.obj?, hsections]
  show (sectionsIn doc (reachedSet doc left)).filterMap _ = _
  unfold sectionsIn
  rw [List.filterMap_filterMap]
  refine List.filterMap_congr fun m _ => ?_
  obtain ⟨kind, s⟩ := m
  cases s with
  | obj entries =>
    simp only []
    split_ifs with hempty
    · rfl
    · simp only [Option.bind_some, entriesIn_entriesIn, hempty]
      rfl
  | _ => rfl

theorem componentMembers_eq (h : IsPart doc path item left part) {left' : Components}
    (h' : Document.unreached part item = .ok left') :
    componentMembers part left' = componentMembers doc left := by
  have hset := h.reachedSet_eq h'
  unfold componentMembers
  simp only [length_eq_iff h.distinctKeys h', length_eq_iff h.distinct h.unreached, hset]
  split_ifs with hempty
  · rfl
  · rw [keepReached_eq h.distinctKeys, keepReached_eq h.distinct, hset, h.sectionsIn_eq hempty]

/-- The document of a path is its own document for that path. -/
theorem forPath_eq (h : IsPart doc path item left part) : forPath part path item = .ok part := by
  obtain ⟨left', h'⟩ := h.exists_unreached
  rw [forPath_eq_ok]
  refine ⟨left', h', ?_⟩
  rw [h.topMembers_eq, h.componentMembers_eq h', ← h.members]

end IsPart

/-- A split document splits into itself: the document of a path has that path alone, and the
document that a split gives it is the same, down to the order of all keys. -/
theorem split_of_split {doc : Value} {parts : Assoc Value} (hd : doc.distinctKeys = true)
    (h : split doc = .ok parts) : ∀ p ∈ parts, split p.2 = .ok [p] := by
  rintro ⟨path, part⟩ hp
  obtain ⟨item, left, hpart⟩ := isPart_of_split hd h hp
  have hpaths : paths part = .ok [(path, item)] := by
    rw [paths_eq_ok, Value.obj?, hpart.get?_paths]
    rfl
  unfold split
  rw [hpaths, Outcome.ok_bind, List.mapM_cons, List.mapM_nil]
  show ((forPath part path item >>= _) >>= _) = _
  rw [hpart.forPath_eq]
  rfl

theorem split_of_split_depot : ∃ parts part, depot.distinctKeys = true ∧ split depot = .ok parts
    ∧ ("/stock", part) ∈ parts ∧ split part = .ok [("/stock", part)] := by
  have hd : depot.distinctKeys = true := by decide +kernel
  obtain ⟨parts, part, hs, hp, -⟩ := exists_split_depot
  exact ⟨parts, part, hd, hs, hp, split_of_split hd hs _ hp⟩

end ZodGen.Document
