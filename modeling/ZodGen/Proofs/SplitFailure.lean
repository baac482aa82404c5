import ZodGen.Proofs.Causes
import ZodGen.Proofs.PathNeeds

/-!
# Why a document is not split

A path item comes to the references in it, to those in the security schemes that it asks for, and on
to those in every component that a reference leads into (`Reached`). A document with path items is
split exactly if all these references are sound, and the error is that of one that is not
(`split_ok_iff`).

What the search reads are references that the path item comes to (`Reads`), so it fails for one of
them or not at all. Once it has ended, each of them stands in a value that is settled
(`settled_of_reached`), so none of them was unsound. The order of the search and what it leaves out
as seen before play no part in either.
-/

namespace ZodGen

open Outcome

/-! ## Sound references -/

namespace Reference

/-- A reference to a place of the document at hand. -/
def IsLocal (r : String) : Prop := r = "#" ∨ "#/".toList <+: r.toList

/-- How a reference elsewhere is reported. -/
def unsupported (r : String) : Error :=
  ⟨.unsupportedReferenceKind, s!"{r} ({unsupportedWord r} reference)"⟩

theorem keys_of_isLocal {r : String} (h : IsLocal r) : ∃ ks, keys r = .ok ks := by
  unfold keys Pointer.keys?
  rcases h with rfl | ⟨rest, hrest⟩
  · exact ⟨[], rfl⟩
  · rw [← hrest]
    exact ⟨_, rfl⟩

theorem keys_of_not_isLocal {r : String} (h : ¬ IsLocal r) : keys r = .error (unsupported r) := by
  have hkeys : Pointer.keys? r = none := by
    unfold Pointer.keys?
    split
    · rename_i hr
      exact absurd (.inl (String.toList_inj.1 hr)) h
    · rename_i rest hr
      exact absurd (.inr ⟨rest, hr.symm⟩) h
    · rfl
  rw [keys, hkeys]
  rfl

theorem componentTarget_of_isLocal {r : String} (h : IsLocal r) :
    ∃ o, componentTarget r = .ok o := by
  obtain ⟨ks, hks⟩ := keys_of_isLocal h
  unfold componentTarget
  rw [hks, Outcome.ok_bind]
  split
  · split_ifs
    · exact ⟨_, rfl⟩
    · exact ⟨_, rfl⟩
  · exact ⟨_, rfl⟩

theorem componentTarget_of_not_isLocal {r : String} (h : ¬ IsLocal r) :
    componentTarget r = .error (unsupported r) := by
  unfold componentTarget
  rw [keys_of_not_isLocal h, Outcome.error_bind]

end Reference

namespace Document

open Reference (Target componentTarget IsLocal unsupported)

/-- A reference to a place of the document that is there, as far as it leads into a component. -/
def Sound (doc : Value) (r : String) : Prop :=
  IsLocal r ∧ ∀ t, componentTarget r = .ok (some t) → (component? doc t).isSome

/-- A reference that is not sound, with the error for it. -/
inductive Fault (doc : Value) (r : String) : Error → Prop
  | elsewhere (h : ¬ IsLocal r) : Fault doc r (unsupported r)
  | missing {t : Target} (ht : componentTarget r = .ok (some t)) (h : component? doc t = none) :
    Fault doc r ⟨.referenceNotFound, r⟩

theorem Fault.not_sound {doc : Value} {r : String} {e : Error} (h : Fault doc r e) :
    ¬ Sound doc r := by
  rintro ⟨hlocal, hfound⟩
  cases h with
  | elsewhere h => exact h hlocal
  | missing ht h => simpa [h] using hfound _ ht

theorem Fault.cause_ne {doc : Value} {r : String} {e : Error} (h : Fault doc r e) :
    e.cause ≠ .invalidSpec := by
  cases h <;> simp [unsupported]

/-! ## What the search reads -/

/-- A reference that a path item comes to. -/
inductive Reached (doc item : Value) : String → Prop
  | item {r : String} (h : item.RefersTo r) : Reached doc item r
  | scheme {name r : String} {v : Value} (hname : AsksFor doc item name)
    (hv : component? doc ⟨"securitySchemes", name⟩ = some v) (h : v.RefersTo r) :
    Reached doc item r
  | component {q r : String} {t : Target} {v : Value} (hq : Reached doc item q)
    (ht : componentTarget q = .ok (some t)) (hv : component? doc t = some v)
    (h : v.RefersTo r) : Reached doc item r

namespace Search

variable {doc : Value} {P : String → Prop} {s : Search}

/-- A search that has only values to read whose references are of a kind. -/
structure Reads (doc : Value) (P : String → Prop) (s : Search) : Prop where
  pending : ∀ t v, s.pending.find? t = some v → component? doc t = some v
  queue : ∀ v ∈ s.queue, ∀ r, v.RefersTo r → P r

theorem Reads.reach (h : Reads doc P s) {t : Target}
    (ht : ∀ v, component? doc t = some v → ∀ r, v.RefersTo r → P r) : Reads doc P (s.reach t) := by
  unfold Search.reach
  split
  · rename_i v hv
    refine ⟨fun t' w hw => ?_, fun w hw => ?_⟩
    · rw [Components.find?_without] at hw
      split_ifs at hw
      exact h.pending t' w hw
    · rcases List.mem_append.1 hw with hw | hw
      · exact h.queue w hw
      · rw [List.mem_singleton.1 hw]
        exact ht v (h.pending t v hv)
  · exact h

/-- Whatever was reached before, the error is that of a reference being read. -/
theorem errs_reachAll (hd : doc.distinctKeys = true) : ∀ {rs : List String} {s : Search},
    Errs (fun e => ∃ r ∈ rs, Fault doc r e) (reachAll (components doc) rs s)
  | [], s => errs_ok s
  | r :: rs, s => by
    have hrest : ∀ {s : Search},
        Errs (fun e => ∃ r' ∈ r :: rs, Fault doc r' e) (reachAll (components doc) rs s) := by
      intro s e he
      obtain ⟨r', hr', hfault⟩ := errs_reachAll hd e he
      exact ⟨r', List.mem_cons_of_mem _ hr', hfault⟩
    simp only [Search.reachAll]
    split
    · rename_i e he
      intro e' he'
      cases he'
      have hlocal : ¬ IsLocal r := fun hl => by
        obtain ⟨o, ho⟩ := Reference.componentTarget_of_isLocal hl
        simp [he] at ho
      cases he.symm.trans (Reference.componentTarget_of_not_isLocal hlocal)
      exact ⟨r, List.mem_cons_self, .elsewhere hlocal⟩
    · exact hrest
    · rename_i t ht
      split_ifs with hnone
      · rw [find?_components hd, Option.isNone_iff_eq_none] at hnone
        exact errs_fail ⟨r, List.mem_cons_self, .missing ht hnone⟩
      · exact hrest

/-- By induction on the search: it fails only at references of a closed kind, and then with their
fault. -/
theorem errs_run (hd : doc.distinctKeys = true)
    (hclosed : ∀ q t v, P q → componentTarget q = .ok (some t) → component? doc t = some v →
      ∀ r, v.RefersTo r → P r)
    (pending : Components) (queue : List Value) (h : Reads doc P ⟨pending, queue⟩) :
    Errs (fun e => ∃ r, P r ∧ Fault doc r e) (run (components doc) pending queue) := by
  fun_induction Search.run (components doc) pending queue with
  | case1 pending => exact errs_ok pending
  | case2 pending v rest e he =>
    intro e' he'
    cases he'
    obtain ⟨r, hr, hfault⟩ := errs_reachAll hd e he
    exact ⟨r, h.queue v List.mem_cons_self r (Value.mem_refs_iff.1 hr), hfault⟩
  | case3 pending v rest u hu ih =>
    have hrest : Reads doc P ⟨pending, rest⟩ :=
      ⟨h.pending, fun w hw => h.queue w (List.mem_cons_of_mem _ hw)⟩
    have hv := h.queue v List.mem_cons_self
    refine ih (reachAll_invariant (fun _ _ ht hs => hs.reach ht) (fun r hr t ht => ?_) hrest hu)
    exact fun w hw => hclosed r t w (hv r (Value.mem_refs_iff.1 hr)) ht hw

end Search

section Split

variable {doc item : Value}

theorem errs_unreached (hd : doc.distinctKeys = true) (item : Value) :
    Errs (fun e => ∃ r, Reached doc item r ∧ Fault doc r e) (unreached doc item) := by
  have hstart : Search.Reads doc (Reached doc item) ⟨components doc, [item]⟩ := by
    refine ⟨fun t v hv => by rwa [find?_components hd] at hv, fun v hv r hr => ?_⟩
    rw [List.mem_singleton.1 hv] at hr
    exact .item hr
  refine Search.errs_run hd (fun q t v hq ht hv r hr => .component hq ht hv hr) _ _ ?_
  refine Search.foldl_reach_invariant (fun s t ht hs => hs.reach ht)
    (fun name => ⟨"securitySchemes", name⟩) (fun name hname v hv r hr => ?_) hstart
  exact .scheme (mem_askedNames.1 hname) hv hr

/-- At the end of the search every reference that the path item comes to has been read. -/
theorem settled_of_reached (hd : doc.distinctKeys = true) {left : Components}
    (h : unreached doc item = .ok left) {r : String} (hr : Reached doc item r) :
    Search.Settled (components doc) left [r] := by
  have hend := unreached_ended h
  have hof : ∀ {v : Value} {r : String}, Search.Settled (components doc) left v.refs →
      v.RefersTo r → Search.Settled (components doc) left [r] := by
    intro v r hv hr q hq
    rw [List.mem_singleton.1 hq]
    exact hv r (Value.mem_refs_iff.2 hr)
  induction hr with
  | item hr => exact hof (hend.queued item List.mem_cons_self) hr
  | @scheme name r v hname hv hr =>
    have htaken := ((suffices_reachedSet hd h).schemes name hname (by simp [hv])).2
    exact hof (hend.settled _ v (by rw [find?_components hd, hv]) htaken) hr
  | @component q r t v hq ht hv hr ih =>
    obtain ⟨o, ho, htaken⟩ := ih q List.mem_cons_self
    cases ho.symm.trans ht
    exact hof (hend.settled t v (by rw [find?_components hd, hv]) (htaken t rfl).2) hr

theorem sound_of_reached (hd : doc.distinctKeys = true) {left : Components}
    (h : unreached doc item = .ok left) {r : String} (hr : Reached doc item r) : Sound doc r := by
  obtain ⟨o, ho, hfound⟩ := settled_of_reached hd h hr r List.mem_cons_self
  refine ⟨not_not.1 fun hl => ?_, fun t ht => ?_⟩
  · simp [Reference.componentTarget_of_not_isLocal hl] at ho
  · cases ho.symm.trans ht
    rw [← find?_components hd]
    exact (hfound t rfl).1

theorem errs_forPath (hd : doc.distinctKeys = true) (path : String) (item : Value) :
    Errs (fun e => ∃ r, Reached doc item r ∧ Fault doc r e) (forPath doc path item) := by
  refine (errs_unreached hd item).bind fun left => ?_
  split_ifs
  · exact errs_ok _
  · exact errs_ok _

/-- The document of a path is there exactly if the path item comes to sound references only. -/
theorem forPath_ok_iff (hd : doc.distinctKeys = true) (path : String) (item : Value) :
    (∃ part, forPath doc path item = .ok part) ↔ ∀ r, Reached doc item r → Sound doc r := by
  constructor
  · rintro ⟨part, hpart⟩ r hr
    obtain ⟨left, hleft, -⟩ := forPath_eq_ok.1 hpart
    exact sound_of_reached hd hleft hr
  · intro h
    rcases hpart : forPath doc path item with e | part
    · obtain ⟨r, hr, hfault⟩ := errs_forPath hd path item e hpart
      exact (hfault.not_sound (h r hr)).elim
    · exact ⟨part, rfl⟩

theorem split_of_paths {items : Assoc Value} (h : doc.obj? "paths" = some items) :
    split doc = items.mapM fun m => forPath doc m.1 m.2 >>= fun part => .ok (m.1, part) := by
  rw [split, paths, h]
  rfl

theorem split_of_no_paths (h : doc.obj? "paths" = none) :
    split doc = fail .invalidSpec "document has no `paths` object" := by
  rw [split, paths, h]
  rfl

theorem errs_split (hd : doc.distinctKeys = true) {items : Assoc Value}
    (h : doc.obj? "paths" = some items) :
    Errs (fun e => ∃ m ∈ items, ∃ r, Reached doc m.2 r ∧ Fault doc r e) (split doc) := by
  rw [split_of_paths h]
  refine errs_mapM fun m hm => Errs.map (fun e he => ?_) _
  obtain ⟨r, hr, hfault⟩ := errs_forPath hd m.1 m.2 e he
  exact ⟨m, hm, r, hr, hfault⟩

theorem exists_split_iff (hd : doc.distinctKeys = true) {items : Assoc Value}
    (h : doc.obj? "paths" = some items) :
    (∃ parts, split doc = .ok parts) ↔ ∀ m ∈ items, ∀ r, Reached doc m.2 r → Sound doc r := by
  rw [split_of_paths h]
  constructor
  · rintro ⟨parts, hparts⟩ m hm
    obtain ⟨p, -, hp⟩ := exists_of_mem_of_mapM hparts hm
    obtain ⟨part, hpart, -⟩ := Outcome.bind_eq_ok.1 hp
    exact (forPath_ok_iff hd m.1 m.2).1 ⟨part, hpart⟩
  · intro hsound
    refine exists_mapM fun m hm => ?_
    obtain ⟨part, hpart⟩ := (forPath_ok_iff hd m.1 m.2).2 (hsound m hm)
    exact ⟨(m.1, part), by rw [hpart, Outcome.ok_bind]⟩

/-- A document is split exactly if it has path items and each comes to sound references only. If it
is not, the specification is at fault when there are no path items, and else a reference that one of
them comes to. -/
theorem split_ok_iff (hd : doc.distinctKeys = true) :
    ((∃ parts, split doc = .ok parts) ↔ ∃ items, doc.obj? "paths" = some items
      ∧ ∀ m ∈ items, ∀ r, Reached doc m.2 r → Sound doc r)
    ∧ ∀ e, split doc = .error e → (e.cause = .invalidSpec ↔ doc.obj? "paths" = none)
      ∧ ∀ items, doc.obj? "paths" = some items →
        ∃ m ∈ items, ∃ r, Reached doc m.2 r ∧ ¬ Sound doc r ∧ Fault doc r e := by
  rcases hpaths : doc.obj? "paths" with _ | items
  · have hsplit := split_of_no_paths hpaths
    refine ⟨by simp [hsplit, fail], fun e he => ?_⟩
    cases hsplit.symm.trans he
    simp
  · refine ⟨?_, fun e he => ?_⟩
    · rw [exists_split_iff hd hpaths]
      simp
    · obtain ⟨m, hm, r, hr, hfault⟩ := errs_split hd hpaths e he
      refine ⟨by simp [hfault.cause_ne], fun items' heq => ?_⟩
      cases heq
      exact ⟨m, hm, r, hr, hfault.not_sound, hfault⟩

end Split

section Ward

/-- A bed refers to itself, and to something else besides. Nothing leads to the attic. -/
def ward (r : String) : Value := .obj
  [("paths", .obj [("/ward", .obj [("$ref", .str "#/components/schemas/Bed")])]),
   ("components", .obj
    [("schemas", .obj
      [("Bed", .obj [("parts", .arr
        [.obj [("$ref", .str "#/components/schemas/Bed")], .obj [("$ref", .str r)]])]),
       ("Attic", .obj [("$ref", .str "attic.yaml#/Box")])])])]

/-- What nothing leads to is no fault. The same reference is one where the path item comes to it. -/
theorem split_ok_iff_ward :
    (∃ parts, split (ward "#/components/schemas/Bed/parts") = .ok parts)
    ∧ (∀ r, Reached (ward "#/components/schemas/Bed/parts")
        (.obj [("$ref", .str "#/components/schemas/Bed")]) r →
      Sound (ward "#/components/schemas/Bed/parts") r)
    ∧ ∃ r e, split (ward "attic.yaml#/Box") = .error e
      ∧ Reached (ward "attic.yaml#/Box") (.obj [("$ref", .str "#/components/schemas/Bed")]) r
      ∧ Fault (ward "attic.yaml#/Box") r e := by
  have hok : (split (ward "#/components/schemas/Bed/parts")).map (fun _ => ()) = .ok () := by
    decide +kernel
  have herror : (split (ward "attic.yaml#/Box")).map (fun _ => ())
      = fail .unsupportedReferenceKind "attic.yaml#/Box (relative reference)" := by
    decide +kernel
  rcases hparts : split (ward "#/components/schemas/Bed/parts") with e | parts
  · rw [hparts] at hok
    cases hok
  rcases hfail : split (ward "attic.yaml#/Box") with e | parts'
  · obtain ⟨items, hitems, hsound⟩ := (split_ok_iff (by decide)).1.1 ⟨parts, hparts⟩
    cases hitems
    obtain ⟨m, hm, r, hr, -, hfault⟩ := ((split_ok_iff (by decide)).2 e hfail).2 _ rfl
    cases List.mem_singleton.1 hm
    exact ⟨⟨parts, rfl⟩, hsound _ List.mem_cons_self, r, e, rfl, hr, hfault⟩
  · rw [hfail] at herror
    cases herror

end Ward

end Document

end ZodGen
