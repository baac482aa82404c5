import ZodGen.Proofs.ParameterGroups
import ZodGen.Proofs.PathDocument

/-!
# Validators for each media type of a request

An operation that takes several media types has a pair of validators for each of them. The requests
are told apart by a literal header and differ otherwise only in their body. The responses are built
anew for each media type, but the type is looked at under the key `200` only, and only to choose a
body there: all other branches are the same, in the same order (`compile_variants`).
-/

namespace ZodGen

/-! ## Parts of a validator -/

namespace Validator

/-- The validator of a property of an object. -/
def property? (v : Validator) (name : String) : Option Validator :=
  v.shape?.bind fun s => Assoc.get? name s.properties

/-- Changes the validator of a property, if an object has it. -/
def mapProperty (name : String) (f : Validator → Validator) (v : Validator) : Validator :=
  match v.form with
  | .object s =>
    ⟨.object ⟨s.properties.map fun m => (m.1, if m.1 = name then f m.2 else m.2), s.required⟩,
      v.description⟩
  | _ => v

/-- Forgets the validator of a property. -/
def blank (name : String) : Validator → Validator := mapProperty name fun _ => .plain .any

/-- The options of a union; anything else is its own only option. -/
def branches (v : Validator) : List Validator :=
  match v.form with
  | .union options => options
  | _ => [v]

/-- The union of branches; one branch stands for itself. -/
def joined : List Validator → Validator
  | [single] => single
  | options => .plain (.union options)

theorem branches_joined {bs : List Validator} (h : ∀ b ∈ bs, ∃ s, b = .object s) :
    (joined bs).branches = bs := by
  match bs, h with
  | [], _ => rfl
  | [b], h =>
    obtain ⟨s, rfl⟩ := h b List.mem_cons_self
    rfl
  | _ :: _ :: _, _ => rfl

theorem blank_object_insert (s : Shape Validator) (name : String) (u v : Validator) :
    blank name (.object (s.insert name u true)) = blank name (.object (s.insert name v true)) := by
  have hset : ∀ ms : Assoc Validator,
      (Assoc.set name u ms).map (fun m => (m.1, if m.1 = name then plain .any else m.2))
        = (Assoc.set name v ms).map fun m => (m.1, if m.1 = name then plain .any else m.2) := by
    intro ms
    induction ms with
    | nil => simp [Assoc.set]
    | cons m ms ih =>
      simp only [Assoc.set]
      split_ifs with hm
      · simp [hm]
      · simp only [List.map_cons, ih]
  show Validator.mk (.object ⟨_, _⟩) none = Validator.mk (.object ⟨_, _⟩) none
  simp only [Shape.insert, hset]

end Validator

namespace Reference

theorem distinctKeys_of_step? {v w : Value} {key : String} (h : v.distinctKeys = true)
    (hw : step? v key = some w) : w.distinctKeys = true := by
  cases v with
  | obj ms => exact Document.distinctKeys_of_get? (v := .obj ms) h hw
  | arr items =>
    obtain ⟨i, -, hi⟩ := Option.bind_eq_some_iff.1 hw
    rw [Value.distinctKeys] at h
    exact Value.distinctKeysOfItems_iff.1 h w (List.mem_of_getElem? hi)
  | _ => simp [step?] at hw

theorem distinctKeys_of_walk? : ∀ {v w : Value} {ks : List String}, v.distinctKeys = true →
    walk? v ks = some w → w.distinctKeys = true
  | v, w, [], h, hw => by
    cases hw
    exact h
  | v, w, key :: ks, h, hw => by
    obtain ⟨u, hu, hw⟩ := Option.bind_eq_some_iff.1 hw
    exact distinctKeys_of_walk? (distinctKeys_of_step? h hu) hw

theorem distinctKeys_of_follow {root : Value} (hroot : root.distinctKeys = true)
    (pending : List String) (v w : Value) (hv : v.distinctKeys = true)
    (hw : follow root pending v = .ok w) : w.distinctKeys = true := by
  rw [follow] at hw
  rcases hr : v.ref? with _ | r <;> simp only [hr] at hw
  · cases hw
    exact hv
  · split_ifs at hw with hm
    · rcases hres : resolve root r with _ | next <;> simp only [hres, reduceCtorEq] at hw
      obtain ⟨ks, -, hks⟩ := resolve_eq_ok.1 hres
      exact distinctKeys_of_follow hroot _ next w (distinctKeys_of_walk? hroot hks) hw
    · simp [fail] at hw
termination_by pending.length
decreasing_by exact length_others_lt hm

end Reference

namespace Operation

open Outcome

theorem nodup_contentTypes {root raw : Value} (hroot : root.distinctKeys = true)
    (hraw : raw.distinctKeys = true) : (contentTypes root raw).Nodup := by
  unfold contentTypes
  rcases hv : Reference.resolveObject root raw with _ | v
  · exact List.nodup_nil
  · have hd := Reference.distinctKeys_of_follow hroot _ raw v hraw hv
    rcases hobj : v.obj? "content" with _ | content <;> simp only [hobj]
    · exact List.nodup_nil
    · exact Document.nodup_keys_of_obj? hd hobj

theorem nodup_requestTypes {root op : Value} (hroot : root.distinctKeys = true)
    (hop : op.distinctKeys = true) : (requestTypes root op).Nodup := by
  unfold requestTypes
  rcases hraw : op.get? "requestBody" with _ | raw
  · exact List.nodup_nil
  · exact nodup_contentTypes hroot (Document.distinctKeys_of_get? hop hraw)

/-! ## Requests -/

theorem property?_headers (method : String) (ps : Parameters) (headers : Shape Validator)
    (body : Validator) : (request method ps headers body).property? "headers"
      = if headers.isEmpty then none else some (.object headers) := by
  rw [request_eq]
  show Assoc.get? "headers" _ = _
  exact get?_headers

/-- A request without what its media type decides: the header that names it, and the body. -/
def blankRequest (v : Validator) : Validator :=
  (v.mapProperty "headers" (Validator.blank "Content-Type")).blank "body"

/-- Requests of one operation differ in the header that names their media type and in their body,
and nowhere else. -/
theorem blankRequest_request (method : String) (ps : Parameters) (t u : String)
    (b d : Validator) : blankRequest (request method ps (withContentType ps.header (some t)) b)
      = blankRequest (request method ps (withContentType ps.header (some u)) d) := by
  have hne : ∀ t, (withContentType ps.header (some t)).isEmpty = false := by
    intro t
    obtain ⟨hs, hheaders, -⟩ := areHeaders ps.header (some t)
    by_contra hempty
    rw [if_pos (by simpa using hempty)] at hheaders
    cases hheaders
  have hparts : ∀ t b, blankRequest (request method ps (withContentType ps.header (some t)) b)
      = .object ⟨[("method", .literalText method), ("path", groupObject ps.path),
          ("query", groupObject ps.query), ("headers", Validator.blank "Content-Type"
            (.object (ps.header.insert "Content-Type" (.literalText t) true))),
          ("body", .plain .any)], ["method", "path", "query", "headers", "body"]⟩ := by
    intro t b
    rw [request_eq, hne t]
    rfl
  rw [hparts, hparts, Validator.blank_object_insert _ _ (.literalText t) (.literalText u)]

/-! ## Responses -/

/-- Members in order, those under `default` last. -/
def defaultLast {α : Type} (ms : Assoc α) : Assoc α :=
  ms.filter (·.1 ≠ "default") ++ ms.filter (·.1 = "default")

/-- How many branches the response under a key has: under `200` one, elsewhere one for each media
type, but at least one. -/
def branchCount (root : Value) (key : String) (raw : Value) : Nat :=
  if key = "200" then 1 else max 1 (contentTypes root raw).length

/-- The key of every branch of the responses, in order. -/
def branchKeys (root : Value) (ms : Assoc Value) : List String :=
  (defaultLast ms).flatMap fun m => List.replicate (branchCount root m.1 m.2) m.1

/-- A branch without what the media type of a request decides: the body under `200`. -/
def blankBody (key : String) (b : Validator) : Validator :=
  if key = "200" then b.blank "body" else b

/-- The validator of a response body: nothing when there is no media type. -/
def bodyValidator (c : Schema.Compiler) : Option Value → Outcome Validator
  | none => .ok (.plain .undefined)
  | some media => mediaValidator c media

theorem forall₂_defaultLast {α β : Type} {R : String × α → String × β → Prop}
    (hkey : ∀ x y, R x y → x.1 = y.1) {xs : Assoc α} {ys : Assoc β} (h : List.Forall₂ R xs ys) :
    List.Forall₂ R (defaultLast xs) (defaultLast ys) := by
  refine List.rel_append (List.rel_filter (fun x y hxy => ?_) h)
    (List.rel_filter (fun x y hxy => ?_) h)
  · simp [hkey x y hxy]
  · simp [hkey x y hxy]

theorem classify_eq_default {key : String} {s : Status} (h : classify key = .ok s) :
    s = .default ↔ key = "default" := by
  unfold classify at h
  split_ifs at h with hk
  · cases h
    exact ⟨fun _ => hk, fun _ => rfl⟩
  · split at h <;> cases h
    all_goals simp [hk]

section Branches

variable {c : Schema.Compiler} {key : String} {raw : Value} {s : Status} {bs : List Validator}

theorem responseBranches_eq_ok {t : Option String} {tagged : Bool}
    (h : responseBranches c t tagged key raw = .ok (s, bs)) : classify key = .ok s
      ∧ ∃ response headers, Reference.resolveObject c.root raw = .ok response
        ∧ responseHeaders c response = .ok headers
        ∧ List.Forall₂ (fun m b => ∃ body, bodyValidator c m.2 = .ok body
            ∧ b = branch s (withContentType headers m.1) body)
          (responseMedia key t tagged (content? response)) bs := by
  unfold responseBranches at h
  obtain ⟨status, hs, h⟩ := bind_eq_ok.1 h
  obtain ⟨response, hresponse, h⟩ := bind_eq_ok.1 h
  obtain ⟨headers, hheaders, h⟩ := bind_eq_ok.1 h
  obtain ⟨found, hfound, h⟩ := bind_eq_ok.1 h
  cases h
  refine ⟨hs, response, headers, hresponse, hheaders, (mapM_eq_ok.1 hfound).imp fun m b hb => ?_⟩
  obtain ⟨name, _ | media⟩ := m
  · cases hb
    exact ⟨_, rfl, rfl⟩
  · obtain ⟨body, hbody, hb⟩ := bind_eq_ok.1 hb
    cases hb
    exact ⟨body, hbody, rfl⟩

theorem length_responseMedia {response : Value} (t : Option String)
    (h : Reference.resolveObject c.root raw = .ok response) :
    (responseMedia key t true (content? response)).length = branchCount c.root key raw := by
  unfold branchCount responseMedia
  rcases hc : content? response with _ | content
  · rw [contentTypes_of_content?_none h hc]
    simp
  · obtain ⟨htypes, hne⟩ := contentTypes_of_content? h hc
    have hlength : (contentTypes c.root raw).length = content.length := by
      rw [htypes, Assoc.keys, List.length_map]
    have hpos : 0 < content.length := by
      rw [← hlength, htypes]
      exact List.length_pos_iff.2 hne
    rw [hlength]
    by_cases hk : key = "200"
    · simp [hk]
    · by_cases hlong : content.length > 1
      · simp [hk, hlong]
        omega
      · simp [hk, hlong]
        omega

/-- The number of branches does not depend on the media type of the request. -/
theorem length_of_responseBranches {t : Option String}
    (h : responseBranches c t true key raw = .ok (s, bs)) :
    bs.length = branchCount c.root key raw := by
  obtain ⟨-, response, headers, hresponse, -, hbs⟩ := responseBranches_eq_ok h
  rw [← hbs.length_eq, length_responseMedia t hresponse]

theorem eq_branch_of_mem {t : Option String} {tagged : Bool}
    (h : responseBranches c t tagged key raw = .ok (s, bs)) {b : Validator} (hb : b ∈ bs) :
    ∃ headers body, b = branch s headers body := by
  obtain ⟨-, response, headers, -, -, hbs⟩ := responseBranches_eq_ok h
  obtain ⟨m, -, body, -, rfl⟩ := exists_right_of_forall₂ hbs.flip hb
  exact ⟨_, _, rfl⟩

/-- The media type of the request decides only the body under `200`. -/
theorem responseBranches_agree {t u : Option String} {s' : Status} {bs' : List Validator}
    (h : responseBranches c t true key raw = .ok (s, bs))
    (h' : responseBranches c u true key raw = .ok (s', bs')) :
    bs.map (blankBody key) = bs'.map (blankBody key) := by
  by_cases hk : key = "200"
  · subst hk
    obtain ⟨hs, response, headers, hresponse, hheaders, hbs⟩ := responseBranches_eq_ok h
    obtain ⟨hs', response', headers', hresponse', hheaders', hbs'⟩ := responseBranches_eq_ok h'
    cases hs.symm.trans hs'
    cases hresponse.symm.trans hresponse'
    cases hheaders.symm.trans hheaders'
    -- Under `200` there is one branch, and its headers do not name the media type.
    have hmedia : ∀ t, ∃ media, responseMedia "200" t true (content? response)
        = [(none, media)] := by
      intro t
      unfold responseMedia
      rcases content? response with _ | content
      · exact ⟨_, rfl⟩
      · exact ⟨_, rfl⟩
    obtain ⟨media, hm⟩ := hmedia t
    obtain ⟨media', hm'⟩ := hmedia u
    rw [hm] at hbs
    rw [hm'] at hbs'
    obtain ⟨b, rest, ⟨body, -, rfl⟩, hrest, rfl⟩ := List.forall₂_cons_left_iff.1 hbs
    obtain ⟨b', rest', ⟨body', -, rfl⟩, hrest', rfl⟩ := List.forall₂_cons_left_iff.1 hbs'
    cases hrest
    cases hrest'
    rfl
  · have hmedia : ∀ content,
        responseMedia key t true content = responseMedia key u true content := by
      intro content
      simp [responseMedia, hk]
    unfold responseBranches at h h'
    simp only [hmedia] at h
    cases h.symm.trans h'
    rfl

end Branches

/-- The branches that a member of the responses gives, under its key. -/
def BranchesOf (c : Schema.Compiler) (t : Option String) (m : String × Value)
    (e : String × List Validator) : Prop :=
  e.1 = m.1 ∧ ∃ s, responseBranches c t true m.1 m.2 = .ok (s, e.2)

section Responses

variable {c : Schema.Compiler} {t : Option String} {ms : Assoc Value}

theorem exists_entries : ∀ {ms : Assoc Value} {found : List (Status × List Validator)},
    List.Forall₂ (fun m f => responseBranches c t true m.1 m.2 = .ok f) ms found →
    ∃ es, List.Forall₂ (BranchesOf c t) ms es
      ∧ List.Forall₂ (fun f e => f.2 = e.2 ∧ (f.1 = .default ↔ e.1 = "default")) found es
  | [], [], .nil => ⟨[], .nil, .nil⟩
  | m :: ms, f :: found, .cons hf hfound => by
    obtain ⟨es, hes, hsame⟩ := exists_entries hfound
    have hstatus := classify_eq_default (responseBranches_eq_ok hf).1
    exact ⟨(m.1, f.2) :: es, .cons ⟨rfl, f.1, hf⟩ hes, .cons ⟨rfl, hstatus⟩ hsame⟩

/-- Branches stand in the order of the responses, those of `default` last. -/
theorem responses_eq_ok {v : Validator} (h : responses c t true ms = .ok v) :
    ∃ es, List.Forall₂ (BranchesOf c t) ms es
      ∧ v = .joined ((defaultLast es).flatMap Prod.snd) := by
  unfold responses at h
  obtain ⟨found, hfound, h⟩ := bind_eq_ok.1 h
  obtain ⟨es, hes, hsame⟩ := exists_entries (mapM_eq_ok.1 hfound)
  refine ⟨es, hes, ?_⟩
  rw [List.partition_eq_filter_filter] at h
  have hfilter : List.Forall₂ (fun f e => f.2 = e.2 ∧ (f.1 = .default ↔ e.1 = "default"))
      (found.filter (not ∘ fun f => f.1 == .default) ++ found.filter fun f => f.1 == .default)
      (defaultLast es) := by
    refine List.rel_append (List.rel_filter (fun f e hfe => ?_) hsame)
      (List.rel_filter (fun f e hfe => ?_) hsame)
    · simp [hfe.2]
    · simp [hfe.2]
  have hbranches : (found.filter (not ∘ fun f => f.1 == .default)
      ++ found.filter fun f => f.1 == .default).flatMap Prod.snd
        = (defaultLast es).flatMap Prod.snd := by
    rw [List.flatMap_def, List.flatMap_def,
      map_eq_map_of_forall₂ (hfilter.imp fun f e hfe => hfe.1)]
  simp only [hbranches] at h
  generalize (defaultLast es).flatMap Prod.snd = bs at h ⊢
  rcases bs with _ | ⟨b, _ | ⟨d, bs⟩⟩ <;> cases h <;> rfl

/-- The keys of the branches, each as often as it has branches, with the default last. -/
theorem branchKeys_eq {es : Assoc (List Validator)} (h : List.Forall₂ (BranchesOf c t) ms es) :
    branchKeys c.root ms = (defaultLast es).flatMap fun e => List.replicate e.2.length e.1 := by
  have hlast := forall₂_defaultLast (fun m e hm => hm.1.symm) h
  unfold branchKeys
  rw [List.flatMap_def, List.flatMap_def]
  refine congrArg List.flatten (map_eq_map_of_forall₂ (hlast.imp fun m e he => ?_))
  obtain ⟨hkey, s, hs⟩ := he
  rw [hkey, length_of_responseBranches hs]

theorem zipWith_flatMap_replicate {α β : Type} (f : String → α → β) :
    ∀ es : Assoc (List α), List.zipWith f
      (es.flatMap fun e => List.replicate e.2.length e.1) (es.flatMap Prod.snd)
        = es.flatMap fun e => e.2.map (f e.1)
  | [] => rfl
  | (key, bs) :: es => by
    have hone : List.zipWith f (List.replicate bs.length key) bs = bs.map (f key) := by
      induction bs with
      | nil => rfl
      | cons b bs ih => simp [List.replicate_succ, ih]
    rw [List.flatMap_cons, List.flatMap_cons, List.flatMap_cons,
      List.zipWith_append (by simp), hone, zipWith_flatMap_replicate f es]

/-- A branch has the status of its key. -/
def HasStatus (key : String) (b : Validator) : Prop :=
  ∃ s, classify key = .ok s ∧ b.property? "status" = some s.validator

theorem forall₂_flatMap_replicate {α : Type} {R : String → α → Prop} : ∀ {es : Assoc (List α)},
    (∀ e ∈ es, ∀ b ∈ e.2, R e.1 b) →
    List.Forall₂ R (es.flatMap fun e => List.replicate e.2.length e.1) (es.flatMap Prod.snd)
  | [], _ => .nil
  | (key, bs) :: es, h => by
    have hone : ∀ {ds : List α}, (∀ b ∈ ds, R key b) →
        List.Forall₂ R (List.replicate ds.length key) ds := by
      intro ds
      induction ds with
      | nil => exact fun _ => .nil
      | cons d ds ih =>
        intro hd
        have hrest := ih fun b hb => hd b (List.mem_cons_of_mem _ hb)
        exact .cons (hd d List.mem_cons_self) hrest
    exact List.rel_append (hone (h _ List.mem_cons_self))
      (forall₂_flatMap_replicate fun e he => h e (List.mem_cons_of_mem _ he))

theorem branch_of_mem {es : Assoc (List Validator)} (h : List.Forall₂ (BranchesOf c t) ms es)
    {e : String × List Validator} (he : e ∈ defaultLast es) {b : Validator} (hb : b ∈ e.2) :
    ∃ s headers body, classify e.1 = .ok s ∧ b = branch s headers body := by
  have hlast := forall₂_defaultLast (fun m e hm => hm.1.symm) h
  obtain ⟨m, -, hkey, s, hs⟩ := exists_right_of_forall₂ hlast.flip he
  obtain ⟨headers, body, rfl⟩ := eq_branch_of_mem hs hb
  exact ⟨s, headers, body, by rw [hkey]; exact (responseBranches_eq_ok hs).1, rfl⟩

/-- The responses of an operation are the branches of its members joined, with the default last. -/
theorem exists_branches {v : Validator} (h : responses c t true ms = .ok v) :
    ∃ es, List.Forall₂ (BranchesOf c t) ms es ∧ v = .joined v.branches
      ∧ v.branches = (defaultLast es).flatMap Prod.snd := by
  obtain ⟨es, hes, rfl⟩ := responses_eq_ok h
  have hobjects : ∀ b ∈ (defaultLast es).flatMap Prod.snd, ∃ s, b = .object s := by
    intro b hb
    obtain ⟨e, he, hb⟩ := List.mem_flatMap.1 hb
    obtain ⟨s, headers, body, -, rfl⟩ := branch_of_mem hes he hb
    exact ⟨_, rfl⟩
  have hbranches := Validator.branches_joined hobjects
  exact ⟨es, hes, by rw [hbranches], hbranches⟩

/-- The responses for a media type are branches with the keys of the document, each with the status
of its key. -/
theorem forall₂_hasStatus {v : Validator} (h : responses c t true ms = .ok v) :
    List.Forall₂ HasStatus (branchKeys c.root ms) v.branches := by
  obtain ⟨es, hes, -, hbranches⟩ := exists_branches h
  rw [hbranches, branchKeys_eq hes]
  refine forall₂_flatMap_replicate fun e he b hb => ?_
  obtain ⟨s, headers, body, hs, rfl⟩ := branch_of_mem hes he hb
  exact ⟨s, hs, rfl⟩

/-- The responses for two media types agree, but for the body under `200`. -/
theorem responses_agree {u : Option String} {v w : Validator} (hv : responses c t true ms = .ok v)
    (hw : responses c u true ms = .ok w) :
    List.zipWith blankBody (branchKeys c.root ms) v.branches
      = List.zipWith blankBody (branchKeys c.root ms) w.branches := by
  obtain ⟨es, hes, -, hes_eq⟩ := exists_branches hv
  obtain ⟨ds, hds, -, hds_eq⟩ := exists_branches hw
  have hpairs : List.Forall₂
      (fun e d => e.1 = d.1 ∧ e.2.map (blankBody e.1) = d.2.map (blankBody d.1)) es ds := by
    refine (forall₂_comp hes.flip hds).imp fun e d hed => ?_
    obtain ⟨m, ⟨he, s, hs⟩, ⟨hd, s', hs'⟩⟩ := hed
    exact ⟨he.trans hd.symm, by rw [he, hd]; exact responseBranches_agree hs hs'⟩
  have hlast := forall₂_defaultLast (fun e d hed => hed.1) hpairs
  calc List.zipWith blankBody (branchKeys c.root ms) v.branches
      = (defaultLast es).flatMap fun e => e.2.map (blankBody e.1) := by
        rw [hes_eq, branchKeys_eq hes, zipWith_flatMap_replicate]
    _ = (defaultLast ds).flatMap fun d => d.2.map (blankBody d.1) := by
        rw [List.flatMap_def, List.flatMap_def,
          map_eq_map_of_forall₂ (hlast.imp fun e d hed => hed.2)]
    _ = List.zipWith blankBody (branchKeys c.root ms) w.branches := by
        rw [hds_eq, branchKeys_eq hds, zipWith_flatMap_replicate]

end Responses

/-- The validators of an operation that takes several media types. There is a pair for each type, in
order. The requests name their types, all distinct, in a required header, and differ otherwise in
nothing but their body. The responses have the branches of the document, in its order and those of
`default` last, and differ in nothing but the body of the branch under `200`. -/
theorem compile_variants {c : Schema.Compiler} {op : Document.Operation} {cs : List Compiled}
    (hroot : c.root.distinctKeys = true) (hop : op.body.distinctKeys = true)
    (hn : 2 ≤ (requestTypes c.root op.body).length) (h : compile c op = .ok cs) :
    cs.map (·.contentType) = (requestTypes c.root op.body).map some
    ∧ (requestTypes c.root op.body).Nodup
    ∧ (∀ v ∈ cs, ∃ t hs, v.contentType = some t
      ∧ v.request.property? "headers" = some (.object hs)
      ∧ Assoc.get? "Content-Type" hs.properties = some (.literalText t)
      ∧ "Content-Type" ∈ hs.required)
    ∧ (∀ v ∈ cs, ∀ w ∈ cs, blankRequest v.request = blankRequest w.request)
    ∧ ∃ ms, op.body.obj? "responses" = some ms
      ∧ (∀ v ∈ cs, v.response = .joined v.response.branches
        ∧ List.Forall₂ HasStatus (branchKeys c.root ms) v.response.branches)
      ∧ ∀ v ∈ cs, ∀ w ∈ cs, List.zipWith blankBody (branchKeys c.root ms) v.response.branches
        = List.zipWith blankBody (branchKeys c.root ms) w.response.branches := by
  obtain ⟨resolved, ps, bs, ms, -, -, hbs, hms, hcs⟩ := compile_eq_ok h
  rw [decide_eq_true (show 1 < (requestTypes c.root op.body).length from hn)] at hcs
  -- What every variant is made of: its media type, its body and a run of the responses.
  have hvariant : ∀ v ∈ cs, ∃ t b, v.contentType = some t
      ∧ v.request = request op.method ps (withContentType ps.header (some t)) b
      ∧ responses c (some t) true ms = .ok v.response := by
    intro v hv
    obtain ⟨b, hb, response, hresponse, rfl⟩ := exists_right_of_forall₂ hcs.flip hv
    obtain ⟨t, ht⟩ := contentType_of_several hbs hn hb
    simp only [ht, if_true] at hresponse ⊢
    exact ⟨t, b.validator, rfl, rfl, hresponse⟩
  refine ⟨?_, nodup_requestTypes hroot hop, fun v hv => ?_, fun v hv w hw => ?_, ms, hms,
    fun v hv => ?_, fun v hv w hw => ?_⟩
  · have hne : requestTypes c.root op.body ≠ [] := List.ne_nil_of_length_pos (by omega)
    have htypes := contentTypes_of_bodies hbs
    rw [if_neg hne] at htypes
    rw [← htypes]
    refine map_eq_map_of_forall₂ (hcs.flip.imp fun v b hv => ?_)
    obtain ⟨response, -, rfl⟩ := hv
    rfl
  · obtain ⟨t, b, ht, hb, -⟩ := hvariant v hv
    obtain ⟨hs, hheaders, hprops, hrequired⟩ := areHeaders ps.header (some t)
    refine ⟨t, hs, ht, ?_, by rw [hprops, Assoc.get?_set_self], (hrequired _).2 (.inl rfl)⟩
    rw [hb, property?_headers, hheaders]
  · obtain ⟨t, b, -, hb, -⟩ := hvariant v hv
    obtain ⟨u, d, -, hd, -⟩ := hvariant w hw
    rw [hb, hd]
    exact blankRequest_request _ _ _ _ _ _
  · obtain ⟨t, b, -, -, hresponse⟩ := hvariant v hv
    obtain ⟨es, -, hjoined, -⟩ := exists_branches hresponse
    exact ⟨hjoined, forall₂_hasStatus hresponse⟩
  · obtain ⟨t, b, -, -, hresponse⟩ := hvariant v hv
    obtain ⟨u, d, -, -, hresponse'⟩ := hvariant w hw
    exact responses_agree hresponse hresponse'

/-- The body under `200` is the one that the response has for the media type of the request. -/
theorem compile_variants_upload : shelf.distinctKeys = true ∧ upload.body.distinctKeys = true
    ∧ requestTypes shelf upload.body = ["application/json", "text/plain"]
    ∧ compile { root := shelf } upload = .ok uploads
    ∧ branchKeys shelf uploadResponses = ["200", "default"]
    ∧ (∀ v ∈ uploads, List.Forall₂ HasStatus ["200", "default"] v.response.branches)
    ∧ ∀ v ∈ uploads, ∀ w ∈ uploads, blankRequest v.request = blankRequest w.request
      ∧ List.zipWith blankBody ["200", "default"] v.response.branches
        = List.zipWith blankBody ["200", "default"] w.response.branches := by
  have hshelf : shelf.distinctKeys = true := by decide +kernel
  have hbody : upload.body.distinctKeys = true := by decide +kernel
  have htypes : requestTypes shelf upload.body = ["application/json", "text/plain"] := by
    show contentTypes shelf _ = _
    unfold contentTypes
    rw [Reference.resolveObject_of_ref? rfl]
    rfl
  have hkeys : branchKeys shelf uploadResponses = ["200", "default"] := by
    have hnone : contentTypes shelf (.obj []) = [] := by
      unfold contentTypes
      rw [Reference.resolveObject_of_ref? rfl]
      rfl
    show List.replicate 1 "200"
      ++ (List.replicate (max 1 (contentTypes shelf (.obj [])).length) "default" ++ []) = _
    rw [hnone]
    rfl
  obtain ⟨-, -, -, hrequests, ms, hms, hstatus, hresponses⟩ :=
    compile_variants hshelf hbody (by rw [htypes]; decide) compile_upload
  cases hms
  rw [hkeys] at hstatus hresponses
  exact ⟨hshelf, hbody, htypes, compile_upload, hkeys, fun v hv => (hstatus v hv).2,
    fun v hv w hw => ⟨hrequests v hv w hw, hresponses v hv w hw⟩⟩

end Operation

end ZodGen
