import ZodGen.Operation.Compile
import ZodGen.Proofs.Outcome

/-!
# What the validators of an operation are made of

An operation that compiles has parameters, request bodies and responses, and its validators are put
together from them, one pair for each body (`compile_eq_ok`). There is a body for every media type
of the request, in order, and one without media type when it has none (`contentTypes_of_bodies`).
-/

namespace ZodGen

theorem Reference.resolveObject_of_ref? {root v : Value} (h : v.ref? = none) :
    resolveObject root v = .ok v := by
  rw [resolveObject, follow]
  simp only [h]

namespace Operation

open Outcome

/-- The media types of what a value leads to. -/
def contentTypes (root raw : Value) : List String :=
  match Reference.resolveObject root raw with
  | .ok v => Assoc.keys ((v.obj? "content").getD [])
  | .error _ => []

/-- The media types that an operation takes. -/
def requestTypes (root op : Value) : List String :=
  match op.get? "requestBody" with
  | some raw => contentTypes root raw
  | none => []

theorem map_eq_map_of_forall₂ {α β γ : Type} {f : α → γ} {g : β → γ} {xs : List α} {ys : List β}
    (h : List.Forall₂ (fun x y => f x = g y) xs ys) : xs.map f = ys.map g := by
  rw [← List.forall₂_eq_eq_eq, List.forall₂_map_left_iff, List.forall₂_map_right_iff]
  exact h

section Bodies

variable {c : Schema.Compiler}

theorem contentTypes_of_content? {root raw v : Value} {content : Assoc Value}
    (hv : Reference.resolveObject root raw = .ok v) (hc : content? v = some content) :
    contentTypes root raw = Assoc.keys content ∧ Assoc.keys content ≠ [] := by
  obtain ⟨hobj, hne⟩ := Option.filter_eq_some_iff.1 hc
  refine ⟨by simp only [contentTypes, hv, hobj, Option.getD_some], ?_⟩
  simpa [Assoc.keys] using hne

theorem contentTypes_of_content?_none {root raw v : Value}
    (hv : Reference.resolveObject root raw = .ok v) (hc : content? v = none) :
    contentTypes root raw = [] := by
  simp only [contentTypes, hv]
  rcases hobj : v.obj? "content" with _ | content
  · rfl
  · have hempty : content = [] := by simpa [content?, hobj, Option.filter] using hc
    rw [hempty]
    rfl

/-- An operation has one body for each media type that it takes, and one without a type if it takes
none. -/
theorem contentTypes_of_bodies {op : Value} {bs : List Body} (h : bodies c op = .ok bs) :
    bs.map (·.contentType)
      = if requestTypes c.root op = [] then [none] else (requestTypes c.root op).map some := by
  unfold bodies at h
  unfold requestTypes
  rcases hraw : op.get? "requestBody" with _ | raw <;> rw [hraw] at h
  · cases h
    rfl
  · obtain ⟨v, hv, h⟩ := bind_eq_ok.1 h
    simp only [] at h ⊢
    rcases hc : content? v with _ | content <;> rw [hc] at h
    · cases h
      rw [contentTypes_of_content?_none hv hc, if_pos rfl]
      rfl
    · obtain ⟨htypes, hne⟩ := contentTypes_of_content? hv hc
      rw [htypes, if_neg hne, Assoc.keys, List.map_map]
      refine map_eq_map_of_forall₂ ((mapM_eq_ok.1 h).flip.imp fun b m hb => ?_)
      obtain ⟨u, -, hb⟩ := bind_eq_ok.1 hb
      cases hb
      rfl

theorem several_bodies_iff {op : Value} {bs : List Body} (h : bodies c op = .ok bs) :
    bs.length > 1 ↔ 1 < (requestTypes c.root op).length := by
  have hlength := congrArg List.length (contentTypes_of_bodies h)
  rw [List.length_map] at hlength
  rw [hlength]
  split_ifs with hnil
  · simp [hnil]
  · simp

theorem contentType_of_several {op : Value} {bs : List Body} (h : bodies c op = .ok bs)
    (hn : 1 < (requestTypes c.root op).length) {b : Body} (hb : b ∈ bs) :
    ∃ t, b.contentType = some t := by
  have hmem : b.contentType ∈ bs.map (·.contentType) := List.mem_map_of_mem hb
  have hne : requestTypes c.root op ≠ [] := List.ne_nil_of_length_pos (by omega)
  rw [contentTypes_of_bodies h, if_neg hne] at hmem
  obtain ⟨t, -, ht⟩ := List.mem_map.1 hmem
  exact ⟨t, ht.symm⟩

end Bodies

/-- The parts of a request in order. Headers are left out when there are none. -/
theorem request_eq (method : String) (ps : Parameters) (headers : Shape Validator)
    (body : Validator) : request method ps headers body = .object
      ⟨[("method", .literalText method), ("path", groupObject ps.path),
          ("query", groupObject ps.query)]
        ++ (if headers.isEmpty then [] else [("headers", .object headers)]) ++ [("body", body)],
        ["method", "path", "query"] ++ (if headers.isEmpty then [] else ["headers"])
          ++ ["body"]⟩ := by
  unfold request
  split_ifs <;> rfl

/-- The validators for one body of a request. -/
def Assembles (c : Schema.Compiler) (op : Document.Operation) (ps : Parameters)
    (tagged : Bool) (ms : Assoc Value) (b : Body) (v : Compiled) : Prop :=
  ∃ response, responses c (if tagged then b.contentType else none) tagged ms = .ok response
    ∧ v = ⟨op.path, op.method, b.contentType,
      request op.method ps
        (withContentType ps.header (if tagged then b.contentType else none)) b.validator, response⟩

/-- What an operation is compiled from: its parameters with references resolved, of which later ones
replace earlier ones, its bodies, and for each body the responses. -/
theorem compile_eq_ok {c : Schema.Compiler} {op : Document.Operation} {cs : List Compiled}
    (h : compile c op = .ok cs) : ∃ resolved ps bs ms,
      (allParameters op).mapM (Reference.resolveObject c.root) = .ok resolved
      ∧ (Assoc.values (mergeParameters resolved)).foldlM (addParameter c (label op)) {} = .ok ps
      ∧ bodies c op.body = .ok bs ∧ op.body.obj? "responses" = some ms
      ∧ List.Forall₂
        (Assembles c op ps (decide (1 < (requestTypes c.root op.body).length)) ms) bs cs := by
  unfold compile at h
  obtain ⟨merged, hmerged, h⟩ := bind_eq_ok.1 h
  obtain ⟨resolved, hresolved, hm⟩ := bind_eq_ok.1 hmerged
  cases hm
  obtain ⟨ps, hps, h⟩ := bind_eq_ok.1 h
  obtain ⟨bs, hbs, h⟩ := bind_eq_ok.1 h
  rcases hms : (op.body.obj? "responses").filter (!·.isEmpty) with _ | ms <;>
    simp only [hms, several_bodies_iff hbs] at h
  · cases h
  · refine ⟨resolved, ps, bs, ms, hresolved, hps, hbs, (Option.filter_eq_some_iff.1 hms).1, ?_⟩
    refine (mapM_eq_ok.1 h).imp fun b v hv => ?_
    obtain ⟨response, hr, hv⟩ := bind_eq_ok.1 hv
    cases hv
    exact ⟨response, by simpa only [decide_eq_true_eq] using hr, by simp only [decide_eq_true_eq]⟩

end Operation

end ZodGen
