import Mathlib.Data.List.Induction
import ZodGen.Proofs.Members
import ZodGen.Proofs.Merging
import ZodGen.Proofs.OperationParts

/-!
# Parameters by location

Parameters with the same name and place are one: the last of them counts, and it stands where the
first does. So the object of a location has exactly the names of its parameters in the order of
their first occurrence, each with the validator of the last parameter of that name
(`compile_collects`). That a name is required says that its last parameter is: those it overrides
are gone before the objects are built, which only ever add names to the required ones.
-/

namespace ZodGen

namespace Assoc

variable {κ α : Type} [DecidableEq κ]

theorem keys_set_of_mem {k : κ} (v : α) : ∀ {ms : List (κ × α)}, k ∈ keys ms →
    keys (set k v ms) = keys ms
  | (l, u) :: ms, h => by
    by_cases hl : l = k
    · rw [set, if_pos hl]
      rfl
    · have hm : k ∈ keys ms := (List.mem_cons.1 h).resolve_left (Ne.symm hl)
      rw [set, if_neg hl]
      exact congrArg (l :: ·) (keys_set_of_mem v hm)

theorem set_of_notMem {k : κ} (v : α) : ∀ {ms : List (κ × α)}, k ∉ keys ms →
    set k v ms = ms ++ [(k, v)]
  | [], _ => rfl
  | (l, u) :: ms, h => by
    obtain ⟨hl, hm⟩ := not_or.1 fun hm => h (List.mem_cons.2 hm)
    rw [set, if_neg (Ne.symm hl), set_of_notMem v hm]
    rfl

theorem ofList_concat (pairs : List (κ × α)) (k : κ) (v : α) :
    ofList (pairs ++ [(k, v)]) = set k v (ofList pairs) := by
  simp [ofList, extend]

/-- Keys stand where they first occur. -/
theorem keys_ofList [BEq κ] [LawfulBEq κ] (pairs : List (κ × α)) :
    keys (ofList pairs) = (keys pairs).eraseDups := by
  induction pairs using List.reverseRecOn with
  | nil => rfl
  | append_singleton pairs m ih =>
    obtain ⟨k, v⟩ := m
    have hconcat : ∀ ms : List (κ × α), keys (ms ++ [(k, v)]) = keys ms ++ [k] :=
      fun _ => List.map_append
    rw [ofList_concat, hconcat, List.eraseDups_append, ← ih]
    by_cases hk : k ∈ keys pairs
    · have hmem : k ∈ keys (ofList pairs) := by rw [ih]; exact List.mem_eraseDups.2 hk
      simp [keys_set_of_mem v hmem, List.removeAll, hk]
    · have hnot : k ∉ keys (ofList pairs) := by rw [ih]; exact mt List.mem_eraseDups.1 hk
      have hrest : [k].removeAll (keys pairs) = [k] := by simp [List.removeAll, hk]
      rw [set_of_notMem v hnot, hconcat, hrest]
      rfl

/-- A key has its last value. -/
theorem get?_ofList (key : κ) (pairs : List (κ × α)) :
    get? key (ofList pairs) = ((pairs.filter (·.1 = key)).getLast?).map Prod.snd := by
  induction pairs using List.reverseRecOn with
  | nil => rfl
  | append_singleton pairs m ih =>
    obtain ⟨k, v⟩ := m
    rw [ofList_concat, List.filter_append, List.getLast?_append]
    by_cases hk : k = key
    · subst hk
      simp [get?_set_self]
    · rw [get?_set_of_ne (Ne.symm hk), ih]
      simp [hk]

end Assoc

namespace Shape

theorem insert_of_notMem {α : Type} {s : Shape α} {name : String}
    (hp : name ∉ Assoc.keys s.properties) (hr : name ∉ s.required) (v : α) (required : Bool) :
    s.insert name v required
      = ⟨s.properties ++ [(name, v)], s.required ++ if required then [name] else []⟩ := by
  unfold insert
  rw [Assoc.set_of_notMem v hp]
  cases required <;> simp [addName, hr]

end Shape

namespace Operation

open Outcome

/-! ## The parameters that count -/

/-- What tells parameters apart: name and place. -/
def parameterKey (p : Value) : String × String := (parameterName p, parameterPlace p)

/-- The parameter that counts for a name and a place is the last. -/
def winner? (ps : List Value) (key : String × String) : Option Value :=
  (ps.filter (parameterKey · = key)).getLast?

/-- The names of a location, in the order of their first parameters. -/
def namesAt (l : Location) (ps : List Value) : List String :=
  ((ps.map parameterKey).eraseDups.filter (·.2 = l.name)).map Prod.fst

theorem parameterKey_of_winner? {ps : List Value} {key : String × String} {p : Value}
    (h : winner? ps key = some p) : parameterKey p = key := by
  have hmem := List.mem_of_getLast? h
  simpa using (List.mem_filter.1 hmem).2

theorem isRequired_iff {p : Value} :
    isRequired p = true ↔ p.get? "required" = some (.bool true) := by
  unfold isRequired
  rcases p.get? "required" with _ | v
  · simp
  · cases v <;> simp [Value.asBool?]

section Merged

variable {ps : List Value}

theorem get?_mergeParameters (key : String × String) :
    Assoc.get? key (mergeParameters ps) = winner? ps key := by
  unfold mergeParameters winner?
  rw [Assoc.get?_ofList, List.filter_map, List.getLast?_map, Option.map_map]
  exact Option.map_id_apply

theorem keys_mergeParameters :
    Assoc.keys (mergeParameters ps) = (ps.map parameterKey).eraseDups := by
  unfold mergeParameters
  rw [Assoc.keys_ofList, Assoc.keys, List.map_map]
  rfl

/-- Every member is the winner of its key. -/
theorem winner?_of_mem {m : (String × String) × Value} (h : m ∈ mergeParameters ps) :
    winner? ps m.1 = some m.2 := by
  rw [← get?_mergeParameters]
  exact Assoc.get?_of_mem (Assoc.nodup_keys_ofList _) h

theorem map_parameterKey_values :
    (Assoc.values (mergeParameters ps)).map parameterKey = Assoc.keys (mergeParameters ps) := by
  rw [Assoc.values, Assoc.keys, List.map_map]
  exact List.map_congr_left fun m hm => parameterKey_of_winner? (winner?_of_mem hm)

theorem mem_values_mergeParameters {p : Value} :
    p ∈ Assoc.values (mergeParameters ps) ↔ winner? ps (parameterKey p) = some p := by
  constructor
  · intro h
    obtain ⟨m, hm, rfl⟩ := List.mem_map.1 h
    have hw := winner?_of_mem hm
    rwa [parameterKey_of_winner? hw]
  · intro h
    rw [← get?_mergeParameters] at h
    exact List.mem_map_of_mem (f := Prod.snd) (Assoc.mem_of_get? h)

end Merged

/-! ## One parameter after the other -/

theorem Location.parse?_eq_some {place : String} {l : Location} :
    Location.parse? place = some l ↔ place = l.name := by
  constructor
  · intro h
    unfold Location.parse? at h
    split at h <;> cases h <;> rfl
  · rintro rfl
    cases l <;> rfl

/-- The locations that a request has objects for. -/
def Location.isGroup (l : Location) : Bool := l != .cookie

/-- The parameters of one location. -/
def Parameters.at_ (ps : Parameters) : Location → Shape Validator
  | .path => ps.path
  | .query => ps.query
  | .header => ps.header
  | .cookie => .empty

/-- A parameter is added to its own location, and the other locations stay as they are. -/
theorem Parameters.at_insert {l : Location} (hl : l.isGroup = true) (ps : Parameters)
    (l' : Location) (name : String) (v : Validator) (required : Bool) :
    (ps.insert l' name v required).at_ l
      = if l' = l then (ps.at_ l).insert name v required else ps.at_ l := by
  cases l <;> cases l' <;> first | rfl | simp [Location.isGroup] at hl

/-- The validator of a parameter under its name: that of its schema, read as its location asks, with
the description of the parameter. -/
def Validates (c : Schema.Compiler) (l : Location) (p : Value) (m : String × Validator) : Prop :=
  m.1 = parameterName p ∧ ∃ schema u, p.get? "schema" = some schema
    ∧ c.compile schema l.options = .ok u ∧ m.2 = u.describe (p.str? "description")

/-- The parameters of a list that stand in a location. -/
def ofLocation (l : Location) (qs : List Value) : List Value :=
  qs.filter (parameterPlace · = l.name)

section Run

variable {c : Schema.Compiler} {text : String} {l : Location}

/-- A parameter changes its own location and no other. -/
theorem addParameter_cases (hl : l.isGroup = true) {acc r : Parameters} {p : Value}
    (h : addParameter c text acc p = .ok r) :
    (parameterPlace p = l.name ∧ ∃ v, Validates c l p (parameterName p, v)
        ∧ r.at_ l = (acc.at_ l).insert (parameterName p) v (isRequired p))
      ∨ (parameterPlace p ≠ l.name ∧ r.at_ l = acc.at_ l) := by
  unfold addParameter at h
  simp only [] at h
  rcases hplace : Location.parse? (parameterPlace p) with _ | l' <;> rw [hplace] at h
  -- An unknown place is not that of a group, and neither are cookies.
  · cases h
    refine .inr ⟨fun hp => ?_, rfl⟩
    rw [Location.parse?_eq_some.2 hp] at hplace
    cases hplace
  · have hname := Location.parse?_eq_some.1 hplace
    have hself : parameterPlace p = l.name ↔ l' = l := by
      rw [← Location.parse?_eq_some, hplace, Option.some_inj]
    by_cases hc : l' = .cookie
    · subst hc
      cases h
      refine .inr ⟨fun hp => ?_, rfl⟩
      rw [← hself.1 hp] at hl
      cases hl
    · rcases hs : p.get? "schema" with _ | schema
      · cases l' <;> simp [hs, fail] at h hc
      · have hstep : (c.compile schema l'.options >>= fun v => .ok
            (acc.insert l' (parameterName p) (v.describe (p.str? "description")) (isRequired p)))
              = .ok r := by
          cases l' <;> first | simpa only [hs] using h | exact absurd rfl hc
        obtain ⟨u, hu, hr⟩ := bind_eq_ok.1 hstep
        cases hr
        rw [Parameters.at_insert hl]
        by_cases hll : l' = l
        · subst hll
          exact .inl ⟨hname, _, ⟨rfl, schema, u, hs, hu, rfl⟩, if_pos rfl⟩
        · exact .inr ⟨fun hp => hll (hself.1 hp), if_neg hll⟩

/-- Parameters that differ in name or place make, at each location, the object of those that stand
there. -/
theorem at_of_foldlM (hl : l.isGroup = true) {qs : List Value} {r : Parameters}
    (hn : (qs.map parameterKey).Nodup) (h : qs.foldlM (addParameter c text) {} = .ok r) :
    ∃ added, List.Forall₂ (Validates c l) (ofLocation l qs) added
      ∧ r.at_ l = ⟨added, ((ofLocation l qs).filter isRequired).map parameterName⟩ := by
  induction qs using List.reverseRecOn generalizing r with
  | nil =>
    cases h
    exact ⟨[], .nil, by cases l <;> rfl⟩
  | append_singleton qs q ih =>
    rw [List.foldlM_append] at h
    obtain ⟨acc, hacc, h⟩ := bind_eq_ok.1 h
    rw [List.foldlM_cons] at h
    obtain ⟨r', hq, h⟩ := bind_eq_ok.1 h
    cases h
    rw [List.map_append, List.nodup_append] at hn
    obtain ⟨hqs, -, hdisjoint⟩ := hn
    obtain ⟨added, hadded, hat⟩ := ih hqs hacc
    rcases addParameter_cases hl hq with ⟨hplace, v, hv, hr⟩ | ⟨hplace, hr⟩
    · -- No parameter before has this name in this place, so it goes to the end.
      have hfresh : ∀ p ∈ ofLocation l qs, parameterName p ≠ parameterName q := by
        intro p hp hname
        obtain ⟨hp, hpl⟩ := List.mem_filter.1 hp
        refine hdisjoint _ (List.mem_map_of_mem hp) (parameterKey q) (by simp) ?_
        rw [parameterKey, parameterKey, hname, hplace, of_decide_eq_true hpl]
      have hkeys : Assoc.keys added = (ofLocation l qs).map parameterName :=
        map_eq_map_of_forall₂ (hadded.flip.imp fun m p hm => hm.1)
      have hprops : parameterName q ∉ Assoc.keys (acc.at_ l).properties := by
        rw [hat, hkeys]
        exact fun hm => let ⟨p, hp, he⟩ := List.mem_map.1 hm; hfresh p hp he
      have hreq : parameterName q ∉ (acc.at_ l).required := by
        rw [hat]
        exact fun hm =>
          let ⟨p, hp, he⟩ := List.mem_map.1 hm; hfresh p (List.mem_filter.1 hp).1 he
      have hgrown : ofLocation l (qs ++ [q]) = ofLocation l qs ++ [q] := by
        simp [ofLocation, hplace]
      refine ⟨added ++ [(parameterName q, v)], ?_, ?_⟩
      · rw [hgrown]
        exact List.rel_append hadded (.cons hv .nil)
      · rw [hr, Shape.insert_of_notMem hprops hreq, hat, hgrown]
        cases hreq' : isRequired q <;> simp [hreq']
    · have hsame : ofLocation l (qs ++ [q]) = ofLocation l qs := by
        simp [ofLocation, hplace]
      rw [hsame, hr]
      exact ⟨added, hadded, hat⟩

end Run

/-! ## The groups of a request -/

/-- An object has what the parameters of a location ask for: their names in the order of the first
occurrence, and for each name the validator of the last parameter, which also says whether the name
is required. -/
structure Collects (c : Schema.Compiler) (ps : List Value) (l : Location) (s : Shape Validator) :
    Prop where
  names : Assoc.keys s.properties = namesAt l ps
  validators : ∀ m ∈ s.properties, ∃ p, winner? ps (m.1, l.name) = some p ∧ Validates c l p m
  required : ∀ name, name ∈ s.required ↔ ∃ p, winner? ps (name, l.name) = some p
    ∧ p.get? "required" = some (.bool true)

/-- How a request holds parameters: as their object, or, when there are none, as an empty object
that may be left out. -/
def IsGroup (s : Shape Validator) (v : Validator) : Prop :=
  (s.properties = [] → v = ⟨.default ⟨.optional ⟨.object .empty, none⟩, none⟩ (.obj []), none⟩)
    ∧ (s.properties ≠ [] → v = .object s)

/-- How a request holds headers: not at all when there are none. A media type that tells the request
apart is one more header, in its place or at the end, and required. -/
def AreHeaders (s : Shape Validator) : Option String → Option Validator → Prop
  | none, v => (s.properties = [] → v = none) ∧ (s.properties ≠ [] → v = some (.object s))
  | some t, v => ∃ hs : Shape Validator, v = some (.object hs)
    ∧ hs.properties = Assoc.set "Content-Type" (.literalText t) s.properties
    ∧ ∀ name, name ∈ hs.required ↔ name = "Content-Type" ∨ name ∈ s.required

/-- Adding the parameters that count, one by one, collects those of each location. They have
distinct names and places, so none of them replaces another. -/
theorem collects_of_foldlM {c : Schema.Compiler} {text : String} {l : Location}
    (hl : l.isGroup = true) {ps : List Value} {r : Parameters}
    (h : (Assoc.values (mergeParameters ps)).foldlM (addParameter c text) {} = .ok r) :
    Collects c ps l (r.at_ l) := by
  have hn : ((Assoc.values (mergeParameters ps)).map parameterKey).Nodup := by
    rw [map_parameterKey_values]
    exact Assoc.nodup_keys_ofList _
  obtain ⟨added, hadded, hat⟩ := at_of_foldlM hl hn h
  have hmem : ∀ {p : Value}, p ∈ ofLocation l (Assoc.values (mergeParameters ps)) ↔
      winner? ps (parameterName p, l.name) = some p := by
    intro p
    rw [ofLocation, List.mem_filter, mem_values_mergeParameters, decide_eq_true_eq]
    constructor
    · rintro ⟨hw, hplace⟩
      rwa [← hplace]
    · intro hw
      have hkey := parameterKey_of_winner? hw
      exact ⟨by rwa [hkey], congrArg Prod.snd hkey⟩
  rw [hat]
  refine ⟨?_, fun m hm => ?_, fun name => ?_⟩
  · calc Assoc.keys added
        = (ofLocation l (Assoc.values (mergeParameters ps))).map parameterName :=
          map_eq_map_of_forall₂ (hadded.flip.imp fun m p hm => hm.1)
      _ = ((((Assoc.values (mergeParameters ps))).map parameterKey).filter
            (·.2 = l.name)).map Prod.fst := by
          rw [List.filter_map, List.map_map]
          rfl
      _ = namesAt l ps := by rw [map_parameterKey_values, keys_mergeParameters, namesAt]
  · obtain ⟨p, hp, hv⟩ := exists_right_of_forall₂ hadded.flip hm
    exact ⟨p, by rw [hv.1]; exact hmem.1 hp, hv⟩
  · simp only [List.mem_map, List.mem_filter, ← isRequired_iff]
    constructor
    · rintro ⟨p, ⟨hp, hreq⟩, rfl⟩
      exact ⟨p, hmem.1 hp, hreq⟩
    · rintro ⟨p, hw, hreq⟩
      have hname : parameterName p = name := congrArg Prod.fst (parameterKey_of_winner? hw)
      exact ⟨p, ⟨hmem.2 (by rwa [hname]), hreq⟩, hname⟩

theorem Collects.required_eq_nil {c : Schema.Compiler} {ps : List Value} {l : Location}
    {s : Shape Validator} (h : Collects c ps l s) (hs : s.properties = []) : s = .empty := by
  obtain ⟨properties, required⟩ := s
  have hnames : namesAt l ps = [] := by rw [← h.names, hs]; rfl
  have hreq : required = [] := by
    refine List.eq_nil_iff_forall_not_mem.2 fun name hname => ?_
    obtain ⟨p, hp, -⟩ := (h.required name).1 hname
    have hmem : (name, l.name) ∈ (ps.map parameterKey).eraseDups := by
      rw [List.mem_eraseDups, ← parameterKey_of_winner? hp]
      exact List.mem_map_of_mem (List.mem_filter.1 (List.mem_of_getLast? hp)).1
    have : name ∈ namesAt l ps :=
      List.mem_map.2 ⟨_, List.mem_filter.2 ⟨hmem, by simp⟩, rfl⟩
    simp [hnames] at this
  simp only [] at hs
  rw [hs, hreq]
  rfl

theorem Collects.isGroup {c : Schema.Compiler} {ps : List Value} {l : Location}
    {s : Shape Validator} (h : Collects c ps l s) : IsGroup s (groupObject s) := by
  refine ⟨fun hs => ?_, fun hs => ?_⟩
  · rw [h.required_eq_nil hs]
    rfl
  · rw [groupObject, if_neg (by simpa [Shape.isEmpty] using hs)]

/-- The headers among the parts of a request. -/
theorem get?_headers {method path query body : Validator} {headers : Shape Validator} :
    Assoc.get? "headers" ([("method", method), ("path", path), ("query", query)]
        ++ (if headers.isEmpty then [] else [("headers", .object headers)]) ++ [("body", body)])
      = if headers.isEmpty then none else some (.object headers) := by
  split_ifs <;> rfl

theorem areHeaders (s : Shape Validator) (t : Option String) :
    AreHeaders s t (if (withContentType s t).isEmpty then none
      else some (.object (withContentType s t))) := by
  rcases t with _ | t
  · refine ⟨fun hs => ?_, fun hs => ?_⟩
    · rw [if_pos (by simp [withContentType, Shape.isEmpty, hs])]
    · rw [if_neg (by simpa [withContentType, Shape.isEmpty] using hs)]
      rfl
  · have hne : (withContentType s (some t)).isEmpty = false := by
      rcases s with ⟨_ | ⟨m, ms⟩, required⟩
      · rfl
      · simp only [withContentType, Shape.insert, Shape.isEmpty, Assoc.set]
        split_ifs <;> rfl
    rw [if_neg (by rw [hne]; decide)]
    exact ⟨_, rfl, rfl, fun name => Shape.mem_addName.trans or_comm⟩

/-! ## An operation that takes two media types -/

section Upload

open ZodGen.Schema (textSchema compileWith_textSchema)

/-- A query parameter that its operation overrides. -/
def sharedLimit : Value := .obj
  [("name", .str "limit"), ("in", .str "query"), ("required", .bool true), ("schema", textSchema)]

def ownLimit : Value := .obj
  [("name", .str "limit"), ("in", .str "query"), ("description", .str "At most"),
    ("schema", textSchema)]

def shelf : Value := .obj [("components", .obj [("parameters", .obj
  [("Shared", .obj [("$ref", .str "#/components/parameters/Limit")]), ("Limit", sharedLimit)])])]

def uploadMedia : Assoc Value :=
  [("text/plain", .obj []), ("application/json", .obj [("schema", textSchema)])]

def uploadResponses : Assoc Value :=
  [("default", .obj []), ("200", .obj [("content", .obj uploadMedia)])]

/-- Its parameter is that of its path, through two references, and then its own. -/
def upload : Document.Operation where
  path := "/files"
  method := "post"
  pathParameters := [.obj [("$ref", .str "#/components/parameters/Shared")]]
  body := .obj
    [("parameters", .arr [ownLimit]),
      ("requestBody", .obj [("required", .bool true),
        ("content", .obj [("application/json", .obj []), ("text/plain", .obj [])])]),
      ("responses", .obj uploadResponses)]

def uploadParameters : Parameters where
  query := ⟨[("limit", ⟨.string, some "At most"⟩)], []⟩

/-- The validators for one media type, whose response under `200` is the given one. -/
def uploadFor (contentType : String) (body : Validator) : Compiled :=
  ⟨"/files", "post", some contentType,
    request "post" uploadParameters (withContentType .empty (some contentType)) (.plain .any),
    .plain (.union [branch (.code 200) .empty body, branch .default .empty (.plain .undefined)])⟩

def uploads : List Compiled :=
  [uploadFor "application/json" (.plain .string), uploadFor "text/plain" (.plain .any)]

theorem resolveObject_shelf : (allParameters upload).mapM (Reference.resolveObject shelf)
    = .ok [sharedLimit, ownLimit] := by
  have hlimit : Reference.resolve shelf "#/components/parameters/Limit" = .ok sharedLimit :=
    Reference.resolve_eq_ok.2 ⟨["components", "parameters", "Limit"], by decide +kernel, rfl⟩
  have hshared : Reference.resolve shelf "#/components/parameters/Shared"
      = .ok (.obj [("$ref", .str "#/components/parameters/Limit")]) :=
    Reference.resolve_eq_ok.2 ⟨["components", "parameters", "Shared"], by decide +kernel, rfl⟩
  have hchain : Reference.resolveObject shelf
      (.obj [("$ref", .str "#/components/parameters/Shared")]) = .ok sharedLimit := by
    rw [Reference.resolveObject, Reference.follow]
    show (if _ : "#/components/parameters/Shared" ∈ _ then _ else _) = _
    rw [dif_pos (by decide)]
    simp only [hshared]
    rw [Reference.follow]
    show (if _ : "#/components/parameters/Limit" ∈ _ then _ else _) = _
    rw [dif_pos (by decide)]
    simp only [hlimit]
    rw [Reference.follow]
    rfl
  have hown : Reference.resolveObject shelf ownLimit = .ok ownLimit :=
    Reference.resolveObject_of_ref? rfl
  exact mapM_eq_ok.2 (.cons hchain (.cons hown .nil))

/-- The body under `200` is the one for the media type of the request. The default response has no
body and comes last. -/
theorem responses_upload (contentType : String) {media : Value} {body : Validator}
    (hmedia : Assoc.get? contentType uploadMedia = some media)
    (hbody : mediaValidator { root := shelf } media = .ok body) :
    responses { root := shelf } (some contentType) true uploadResponses
      = .ok (.plain (.union
        [branch (.code 200) .empty body, branch .default .empty (.plain .undefined)])) := by
  have hdefault : responseBranches { root := shelf } (some contentType) true "default" (.obj [])
      = .ok (.default, [branch .default .empty (.plain .undefined)]) := by
    unfold responseBranches
    rw [Reference.resolveObject_of_ref? rfl]
    rfl
  have hcode : responseBranches { root := shelf } (some contentType) true "200"
      (.obj [("content", .obj uploadMedia)])
        = .ok (.code 200, [branch (.code 200) .empty body]) := by
    have hstatus : classify "200" = .ok (.code 200) := by decide +kernel
    have hheaders : responseHeaders { root := shelf } (.obj [("content", .obj uploadMedia)])
        = .ok .empty := rfl
    have hcontent : content? (.obj [("content", .obj uploadMedia)]) = some uploadMedia := rfl
    have hchosen : responseMedia "200" (some contentType) true (some uploadMedia)
        = [(none, some media)] := by
      simp [responseMedia, hmedia]
    unfold responseBranches
    rw [hstatus, ok_bind, Reference.resolveObject_of_ref? rfl, ok_bind, hheaders, ok_bind, hcontent,
      hchosen, List.mapM_cons]
    simp only [hbody]
    rfl
  have hfound : uploadResponses.mapM
      (fun m => responseBranches { root := shelf } (some contentType) true m.1 m.2)
        = .ok [(.default, [branch .default .empty (.plain .undefined)]),
          (.code 200, [branch (.code 200) .empty body])] :=
    mapM_eq_ok.2 (.cons hdefault (.cons hcode .nil))
  unfold responses
  show (List.mapM _ _ >>= _) = _
  rw [hfound]
  rfl

/-- Of the two parameters with one name and place the second counts, and each media type gives a
request. -/
theorem compile_upload : compile { root := shelf } upload = .ok uploads := by
  have htext : ∀ o, (Schema.Compiler.mk shelf BindingName.ofReference).compile textSchema o
      = .ok (.plain .string) := fun o => compileWith_textSchema _ _ o
  have hmerged : mergedParameters shelf upload = .ok [ownLimit] := by
    unfold mergedParameters
    rw [resolveObject_shelf]
    rfl
  have hadd : addParameter { root := shelf } (label upload) {} ownLimit = .ok uploadParameters := by
    show ((Schema.Compiler.mk shelf BindingName.ofReference).compile textSchema .query >>= _) = _
    rw [htext]
    rfl
  have hbodies : bodies { root := shelf } upload.body
      = .ok [⟨some "application/json", .plain .any⟩, ⟨some "text/plain", .plain .any⟩] := by
    show (Reference.resolveObject shelf _ >>= _) = _
    rw [Reference.resolveObject_of_ref? rfl]
    rfl
  have hjson := responses_upload "application/json" rfl (htext {})
  have hplain := responses_upload "text/plain" rfl rfl
  unfold compile
  rw [hmerged, ok_bind, List.foldlM_cons, hadd, hbodies]
  show (List.mapM _ _ : Outcome _) = _
  rw [List.mapM_cons, List.mapM_cons, List.mapM_nil]
  show ((responses { root := shelf } (some "application/json") true uploadResponses >>= _)
    >>= _) = _
  rw [hjson]
  show ((responses { root := shelf } (some "text/plain") true uploadResponses >>= _)
    >>= _) >>= _ = _
  rw [hplain]
  rfl

end Upload

/-- The objects of path, query and header parameters in every request of an operation are those of
its resolved parameters, the path's before its own: of those with one name and place the last
counts, where the first stands. Headers also name the media type when the operation takes several.
-/
theorem compile_collects {c : Schema.Compiler} {op : Document.Operation} {cs : List Compiled}
    (h : compile c op = .ok cs) : ∃ ps path query header,
      (allParameters op).mapM (Reference.resolveObject c.root) = .ok ps
      ∧ Collects c ps .path path ∧ Collects c ps .query query ∧ Collects c ps .header header
      ∧ ∀ v ∈ cs, ∃ r, v.request = .object r
        ∧ (∃ g, Assoc.get? "path" r.properties = some g ∧ IsGroup path g)
        ∧ (∃ g, Assoc.get? "query" r.properties = some g ∧ IsGroup query g)
        ∧ if 1 < (requestTypes c.root op.body).length
          then ∃ t, v.contentType = some t
            ∧ AreHeaders header (some t) (Assoc.get? "headers" r.properties)
          else AreHeaders header none (Assoc.get? "headers" r.properties) := by
  obtain ⟨resolved, ps, bs, ms, hresolved, hps, hbs, -, hcs⟩ := compile_eq_ok h
  have hpath := collects_of_foldlM (l := .path) rfl hps
  have hquery := collects_of_foldlM (l := .query) rfl hps
  have hheader := collects_of_foldlM (l := .header) rfl hps
  refine ⟨resolved, ps.path, ps.query, ps.header, hresolved, hpath, hquery, hheader, ?_⟩
  intro v hv
  obtain ⟨b, hb, response, -, rfl⟩ := exists_right_of_forall₂ hcs.flip hv
  refine ⟨_, request_eq _ _ _ _, ⟨_, rfl, hpath.isGroup⟩, ⟨_, rfl, hquery.isGroup⟩, ?_⟩
  rw [get?_headers]
  by_cases hn : 1 < (requestTypes c.root op.body).length
  · obtain ⟨t, ht⟩ := contentType_of_several hbs hn hb
    rw [if_pos hn, decide_eq_true hn, if_pos rfl, ht]
    exact ⟨t, rfl, areHeaders ps.header (some t)⟩
  · rw [if_neg hn, decide_eq_false hn, if_neg Bool.false_ne_true]
    exact areHeaders ps.header none

/-- The limit that the operation gives counts, so it is not required. -/
theorem compile_collects_upload : compile { root := shelf } upload = .ok uploads
    ∧ winner? [sharedLimit, ownLimit] ("limit", "query") = some ownLimit
    ∧ ∃ query, Collects { root := shelf } [sharedLimit, ownLimit] .query query
      ∧ "limit" ∉ query.required
      ∧ ∀ v ∈ uploads, ∃ r, v.request = .object r
        ∧ Assoc.get? "query" r.properties = some (.object query) := by
  have hw : winner? [sharedLimit, ownLimit] ("limit", "query") = some ownLimit := rfl
  obtain ⟨ps, path, query, header, hps, -, hquery, -, hv⟩ := compile_collects compile_upload
  cases resolveObject_shelf.symm.trans hps
  refine ⟨compile_upload, hw, query, hquery, fun h => ?_, fun v hvs => ?_⟩
  · obtain ⟨p, hp, hreq⟩ := (hquery.required "limit").1 h
    cases hw.symm.trans hp
    cases hreq
  · obtain ⟨r, hr, -, ⟨g, hg, hgroup⟩, -⟩ := hv v hvs
    have hne : query.properties ≠ [] := by
      intro hnil
      have hnames := hquery.names
      rw [hnil] at hnames
      cases hnames
    exact ⟨r, hr, by rw [hg, hgroup.2 hne]⟩

end Operation

end ZodGen
