import ZodGen.Proofs.PathDocument
import ZodGen.Proofs.PointerNames

/-!
# Three readings of a schema's pointer

The compiler takes a component's name from the end of the text, splitting a document takes it from
the keys of the pointer, and resolving walks along these keys. All three mean the same component
(`schemaName?_agrees`): no escape gives a segment more or fewer slashes, and none makes it empty.
-/

namespace ZodGen

namespace Url

theorem splitOn_ne_nil (sep : Char) : ∀ cs : List Char, splitOn sep cs ≠ []
  | [] => by simp [splitOn]
  | c :: cs => by
    rw [splitOn]
    split_ifs
    · simp
    · cases splitOn sep cs <;> simp

theorem eq_of_splitOn_eq_singleton {sep : Char} {cs segment : List Char}
    (h : splitOn sep cs = [segment]) : segment = cs ∧ sep ∉ cs := by
  have hmem : sep ∉ cs := by
    intro hmem
    obtain ⟨front, back, rfl, hfront⟩ := List.eq_append_cons_of_mem hmem
    rw [splitOn_append back hfront, List.cons.injEq] at h
    exact splitOn_ne_nil sep back h.2
  rw [splitOn_of_notMem hmem, List.cons.injEq] at h
  exact ⟨h.1.symm, hmem⟩

end Url

theorem Pointer.decodeChars_nil : decodeChars [] = [] := by
  simp [decodeChars, unescape, Text.Percent.decode, Text.Percent.decodeFrom, Text.Utf8.decode]

namespace Reference

/-- A pointer to a schema component has one segment behind the section, and names what that segment
says. -/
theorem schemaName?_of_segment {r : String} {segment : List Char}
    (hr : r.toList = "#/components/schemas/".toList ++ segment) (hne : segment ≠ [])
    (hslash : '/' ∉ segment) :
    schemaName? r = some (String.ofList (Pointer.decodeChars segment)) := by
  have hdrop : r.toList.drop "#/components/schemas/".length = segment := by
    rw [hr]
    exact List.drop_left
  have hprefix : "#/components/schemas/".toList.isPrefixOf r.toList = true :=
    List.isPrefixOf_iff_prefix.2 ⟨segment, hr.symm⟩
  unfold schemaName?
  rw [hdrop, hprefix]
  cases segment with
  | nil => exact absurd rfl hne
  | cons c cs => simpa using hslash

theorem componentTarget_eq_some {r : String} {t : Target} (h : componentTarget r = .ok (some t)) :
    ∃ rest, keys r = .ok ("components" :: t.kind :: t.name :: rest) ∧ t.name ≠ "" := by
  unfold componentTarget at h
  rcases hkeys : keys r with e | ks
  · rw [hkeys] at h
    cases h
  · rw [hkeys, Outcome.ok_bind] at h
    split at h
    · split_ifs at h with hc
      · obtain ⟨rfl, -, hname⟩ := hc
        cases h
        exact ⟨_, rfl, hname⟩
      · cases h
    · cases h

/-- A component that is named by exactly three keys is one that schemas can refer to by name. -/
theorem schemaName?_of_componentTarget {r rest name : String}
    (hr : r = "#/components/schemas/" ++ rest)
    (htarget : componentTarget r = .ok (some ⟨"schemas", name⟩))
    (hkeys : ∃ ks, keys r = .ok ks ∧ ks.length = 3) : schemaName? r = some name := by
  have hchars : r.toList = "#/components/schemas/".toList ++ rest.toList := by
    rw [hr, String.toList_append]
  obtain ⟨more, hmore, hname⟩ := componentTarget_eq_some htarget
  obtain ⟨ks, hks, hlength⟩ := hkeys
  rw [keys_schemas hchars, Except.ok.injEq] at hks hmore
  -- Three keys leave one segment behind the two of the section.
  have hone : (Url.splitOn '/' rest.toList).length = 1 := by
    rw [← hks] at hlength
    simpa using hlength
  obtain ⟨segment, hsegment⟩ := List.length_eq_one_iff.1 hone
  obtain ⟨rfl, hslash⟩ := Url.eq_of_splitOn_eq_singleton hsegment
  rw [hsegment] at hmore
  obtain ⟨rfl, -⟩ : String.ofList (Pointer.decodeChars rest.toList) = name ∧ [] = more := by
    simpa using hmore
  refine schemaName?_of_segment hchars (fun hnil => hname ?_) hslash
  rw [hnil, Pointer.decodeChars_nil]

theorem walk?_schemas {doc : Value} {ss : Assoc Value}
    (h : (doc.get? "components").bind (Value.obj? · "schemas") = some ss) (name : String) :
    walk? doc ["components", "schemas", name] = Assoc.get? name ss := by
  obtain ⟨sections, hsections, hss⟩ := Option.bind_eq_some_iff.1 h
  rw [walk?, Document.step?_of_get? hsections, Option.bind_some, walk?,
    Document.step?_of_get? (Value.get?_of_obj? hss), Option.bind_some, walk?, step?]
  cases Assoc.get? name ss <;> rfl

theorem component?_schemas {doc : Value} {ss : Assoc Value}
    (h : (doc.get? "components").bind (Value.obj? · "schemas") = some ss) (name : String) :
    Document.component? doc ⟨"schemas", name⟩ = Assoc.get? name ss := by
  obtain ⟨sections, hsections, hss⟩ := Option.bind_eq_some_iff.1 h
  rw [Document.component?, hsections, Option.bind_some, Value.get?_of_obj? hss]
  rfl

/-- The name that a reference is the pointer of is never empty. The reference leads to the schema
component of that name, the component is found under it where a document is split, and resolving the
reference gives the component if there is one. A reference that starts like the pointer of a schema
component and has three keys is the pointer of the component it leads to. -/
theorem schemaName?_agrees (r name : String) :
    (schemaName? r = some name → name ≠ ""
      ∧ componentTarget r = .ok (some ⟨"schemas", name⟩)
      ∧ ∀ doc ss, (doc.get? "components").bind (Value.obj? · "schemas") = some ss → ∀ v,
        (resolve doc r = .ok v ↔ Assoc.get? name ss = some v)
        ∧ (doc.distinctKeys = true →
          ((Document.components doc).find? ⟨"schemas", name⟩ = some v
            ↔ Assoc.get? name ss = some v)))
    ∧ ∀ rest, r = "#/components/schemas/" ++ rest →
      componentTarget r = .ok (some ⟨"schemas", name⟩) →
      (∃ ks, keys r = .ok ks ∧ ks.length = 3) → schemaName? r = some name := by
  refine ⟨fun h => ⟨ne_empty_of_schemaName? h, componentTarget_of_schemaName? h, ?_⟩,
    fun rest => schemaName?_of_componentTarget⟩
  intro doc ss hss v
  constructor
  · rw [resolve_eq_ok, ← walk?_schemas hss name]
    constructor
    · rintro ⟨ks, hks, hwalk⟩
      rw [keys_of_schemaName? h, Except.ok.injEq] at hks
      rwa [hks]
    · exact fun hwalk => ⟨_, keys_of_schemaName? h, hwalk⟩
  · intro hdistinct
    rw [Document.find?_components hdistinct, component?_schemas hss]

/-- A document with one schema, whose name has a slash and a blank. -/
def larder : Value :=
  .obj [("components", .obj [("schemas", .obj [("cat a/b", .obj [("type", .str "string")])])])]

theorem schemaName?_agrees_larder :
    schemaName? "#/components/schemas/cat%20a~1b" = some "cat a/b"
      ∧ componentTarget "#/components/schemas/cat%20a~1b" = .ok (some ⟨"schemas", "cat a/b"⟩)
      ∧ resolve larder "#/components/schemas/cat%20a~1b" = .ok (.obj [("type", .str "string")])
      ∧ (Document.components larder).find? ⟨"schemas", "cat a/b"⟩
        = some (.obj [("type", .str "string")]) := by
  have hkeys : keys "#/components/schemas/cat%20a~1b"
      = .ok ["components", "schemas", "cat a/b"] := by decide +kernel
  have htarget : componentTarget "#/components/schemas/cat%20a~1b"
      = .ok (some ⟨"schemas", "cat a/b"⟩) := by
    rw [componentTarget, hkeys]
    rfl
  obtain ⟨hagrees, hname⟩ := schemaName?_agrees "#/components/schemas/cat%20a~1b" "cat a/b"
  have hname := hname "cat%20a~1b" rfl htarget ⟨_, hkeys, rfl⟩
  obtain ⟨-, -, hfound⟩ := hagrees hname
  obtain ⟨hresolve, hfind⟩ := hfound larder _ rfl (.obj [("type", .str "string")])
  exact ⟨hname, htarget, hresolve.2 rfl, (hfind (by decide)).2 rfl⟩

end Reference

end ZodGen
