import ZodGen.Proofs.Outcome
import ZodGen.Reference.BindingName

/-!
# Names in pointers

The two names a schema component goes by. The pointer that is exactly a schema component's leads to
the component with the decoded name, and the binding for it is made from that name. The binding of
the component itself is made from its name written as a segment and read again, which undoes the
escapes of `~` and `/` but also decodes what looks percent-encoded in the name. So the two bindings
are the same where the name has nothing that looks so, and may differ where it has
(`ofReference_forComponent_iff`).
-/

namespace ZodGen

/-! ## Decoding -/

namespace Text

theorem Utf8.decode_ne_nil : ∀ {bs : List Nat}, bs ≠ [] → Utf8.decode bs ≠ []
  | b :: bs, _ => by
    rw [Utf8.decode]
    simp

theorem Percent.decodeFrom_ne_nil (run : List Nat) (cs : List Char) (h : run ≠ [] ∨ cs ≠ []) :
    Percent.decodeFrom run cs ≠ [] := by
  fun_induction Percent.decodeFrom run cs with
  | case1 run =>
    refine Utf8.decode_ne_nil ?_
    simpa using h
  | case2 run c cs b rest htriplet _ ih => exact ih (.inl (by simp))
  | case3 run c cs htriplet ih => simp

theorem Percent.triplet?_cons {c : Char} (h : c ≠ '%') (cs : List Char) :
    Percent.triplet? (c :: cs) = none := by
  unfold Percent.triplet?
  split
  · simp_all
  · rfl

theorem Percent.decode_cons {c : Char} {cs : List Char} (h : Percent.triplet? (c :: cs) = none) :
    Percent.decode (c :: cs) = c :: Percent.decode cs := by
  rw [Percent.decode, Percent.decodeFrom]
  split
  · simp_all
  · simp [Utf8.decode, Percent.decode]

/-- A text in which nothing looks percent-encoded. -/
def Percent.Plain (cs : List Char) : Prop := ∀ rest, rest <:+ cs → Percent.triplet? rest = none

theorem Percent.decode_of_plain : ∀ {cs : List Char}, Percent.Plain cs → Percent.decode cs = cs
  | [], _ => by simp [Percent.decode, Percent.decodeFrom, Utf8.decode]
  | c :: cs, h => by
    have hrest : Percent.Plain cs := fun rest hr => h rest (hr.trans (List.suffix_cons c cs))
    rw [Percent.decode_cons (h _ List.suffix_rfl), Percent.decode_of_plain hrest]

end Text

namespace Pointer

theorem unescape_cons_of_ne {mark plain c : Char} (h : c ≠ '~') : ∀ cs : List Char,
    unescape mark plain (c :: cs) = c :: unescape mark plain cs
  | [] => rfl
  | d :: cs => by rw [unescape, if_neg fun hc => h hc.1]

theorem unescape_ne_nil {mark plain : Char} : ∀ {cs : List Char}, cs ≠ [] →
    unescape mark plain cs ≠ []
  | [c], _ => by simp [unescape]
  | c :: d :: cs, _ => by
    rw [unescape]
    split_ifs <;> simp

/-- A key with only its tildes escaped. -/
def encodeTildes (cs : List Char) : List Char :=
  cs.flatMap fun c => if c = '~' then ['~', '0'] else [c]

/-- Taking back the escapes of slashes leaves those of tildes. -/
theorem unescape_encodeChars : ∀ cs : List Char,
    unescape '1' '/' (encodeChars cs) = encodeTildes cs
  | [] => rfl
  | c :: cs => by
    have ih := unescape_encodeChars cs
    by_cases ht : c = '~'
    · subst ht
      rw [encodeChars, if_pos rfl, unescape, if_neg (by decide), unescape_cons_of_ne (by decide),
        ih]
      rfl
    · by_cases hs : c = '/'
      · subst hs
        rw [encodeChars, if_neg (by decide), if_pos rfl, unescape, if_pos (by decide), ih]
        rfl
      · rw [encodeChars, if_neg ht, if_neg hs, unescape_cons_of_ne ht, ih]
        simp [encodeTildes, ht]

theorem unescape_encodeTildes : ∀ cs : List Char, unescape '0' '~' (encodeTildes cs) = cs
  | [] => rfl
  | c :: cs => by
    have ih := unescape_encodeTildes cs
    by_cases ht : c = '~'
    · subst ht
      show unescape '0' '~' ('~' :: '0' :: encodeTildes cs) = _
      rw [unescape, if_pos (by decide), ih]
    · have hcons : encodeTildes (c :: cs) = c :: encodeTildes cs := by simp [encodeTildes, ht]
      rw [hcons, unescape_cons_of_ne ht, ih]

/-- Reading a written key gives the key back but for its percent encoding. -/
theorem decodeChars_encodeChars (cs : List Char) :
    decodeChars (encodeChars cs) = Text.Percent.decode cs := by
  rw [decodeChars, unescape_encodeChars, unescape_encodeTildes]

theorem slash_notMem_encodeChars : ∀ cs : List Char, '/' ∉ encodeChars cs
  | [] => by simp [encodeChars]
  | c :: cs => by
    have ih := slash_notMem_encodeChars cs
    rw [encodeChars]
    split_ifs with ht hs
    · simpa using ih
    · simpa using ih
    · simpa using ⟨Ne.symm hs, ih⟩

theorem decodeChars_ne_nil {cs : List Char} (h : cs ≠ []) : decodeChars cs ≠ [] :=
  Text.Percent.decodeFrom_ne_nil [] _ (.inr (unescape_ne_nil (unescape_ne_nil h)))

theorem decodeChars_cons {c : Char} (htilde : c ≠ '~') (hpercent : c ≠ '%') (cs : List Char) :
    decodeChars (c :: cs) = c :: decodeChars cs := by
  rw [decodeChars, unescape_cons_of_ne htilde, unescape_cons_of_ne htilde,
    Text.Percent.decode_cons (Text.Percent.triplet?_cons hpercent _), decodeChars]

end Pointer

/-! ## Bindings -/

namespace BindingName

theorem lastSegment_append (front : List Char) {segment : List Char} (h : '/' ∉ segment) :
    lastSegment (front ++ '/' :: segment) = segment := by
  have hall : ∀ c ∈ segment.reverse, (c != '/') = true := by
    intro c hc
    have : c ≠ '/' := fun he => h (he ▸ List.mem_reverse.1 hc)
    simpa using this
  unfold lastSegment
  rw [List.reverse_append, List.reverse_cons, List.append_assoc,
    List.takeWhile_append_of_pos hall]
  simp

/-- A name is made from the last segment of a reference, decoded. -/
theorem ofReference_eq_ok {text name : String} (h : ofReference text = .ok name) :
    name = String.ofList (ofName (Pointer.decodeChars (lastSegment text.toList))) := by
  unfold ofReference at h
  simp only [] at h
  split_ifs at h
  · simp [fail] at h
  · exact (Except.ok.inj h).symm

theorem head?_ne_of_ofReference {text name : String} (h : ofReference text = .ok name) :
    (lastSegment text.toList).head? ≠ some '#' := by
  intro hhash
  simp [ofReference, hhash, fail] at h

theorem ofReference_of_segment {text : String} {segment : List Char}
    (hlast : lastSegment text.toList = segment) (hne : segment ≠ [])
    (hhash : segment.head? ≠ some '#') :
    ofReference text = .ok (String.ofList (ofName (Pointer.decodeChars segment))) := by
  simp [ofReference, hlast, hne, hhash, Pointer.decodeChars_ne_nil hne]

theorem lastSegment_forComponent (kind name : String) :
    lastSegment (Pointer.forComponent kind name).toList = Pointer.encodeChars name.toList := by
  delta Pointer.forComponent
  rw [Pointer.encodeSegment, Pointer.encodeSegment]
  simp only [String.toList_append, String.toList_ofList]
  rw [show "/".toList = ['/'] from rfl, List.append_assoc _ ['/']]
  exact lastSegment_append _ (Pointer.slash_notMem_encodeChars _)

/-- The binding of a component comes from its name with the percent encoding undone. -/
theorem ofReference_forComponent {kind name binding : String}
    (h : ofReference (Pointer.forComponent kind name) = .ok binding) :
    binding = String.ofList (ofName (Text.Percent.decode name.toList)) := by
  rw [ofReference_eq_ok h, lastSegment_forComponent, Pointer.decodeChars_encodeChars]

end BindingName

/-! ## Pointers of schema components -/

namespace Url

theorem splitOn_of_notMem {sep : Char} : ∀ {cs : List Char}, sep ∉ cs → splitOn sep cs = [cs]
  | [], _ => rfl
  | c :: cs, h => by
    obtain ⟨hc, h⟩ := not_or.1 fun hm => h (List.mem_cons.2 hm)
    rw [splitOn, if_neg (Ne.symm hc), splitOn_of_notMem h]

theorem splitOn_append {sep : Char} (rest : List Char) : ∀ {cs : List Char}, sep ∉ cs →
    splitOn sep (cs ++ sep :: rest) = cs :: splitOn sep rest
  | [], _ => by rw [List.nil_append, splitOn, if_pos rfl]
  | c :: cs, h => by
    obtain ⟨hc, h⟩ := not_or.1 fun hm => h (List.mem_cons.2 hm)
    rw [List.cons_append, splitOn, if_neg (Ne.symm hc), splitOn_append rest h]

end Url

namespace Reference

/-- A reference that names a schema has one segment behind the section of schemas, which is not
empty. -/
theorem schemaName?_eq_some {r name : String} (h : schemaName? r = some name) :
    ∃ segment, r.toList = "#/components/schemas/".toList ++ segment ∧ segment ≠ []
      ∧ '/' ∉ segment ∧ name = String.ofList (Pointer.decodeChars segment) := by
  unfold schemaName? at h
  split at h
  · simp at h
  · rename_i hne
    split_ifs at h with hc
    rw [Bool.and_eq_true, List.isPrefixOf_iff_prefix] at hc
    obtain ⟨⟨segment, hsegment⟩, hslash⟩ := hc
    have hdrop : r.toList.drop "#/components/schemas/".length = segment := by
      rw [← hsegment]
      exact List.drop_left
    rw [hdrop] at hne hslash h
    refine ⟨segment, hsegment.symm, hne, ?_, (Option.some.inj h).symm⟩
    simpa using hslash

/-- The keys of a pointer that starts at the schema components. -/
theorem keys_schemas {r : String} {rest : List Char}
    (hr : r.toList = "#/components/schemas/".toList ++ rest) :
    keys r = .ok ("components" :: "schemas" ::
      (Url.splitOn '/' rest).map fun segment => String.ofList (Pointer.decodeChars segment)) := by
  have hcut : Url.splitOn '/' ("components/schemas/".toList ++ rest)
      = "components".toList :: "schemas".toList :: Url.splitOn '/' rest := by
    show Url.splitOn '/' ("components".toList ++ '/' :: ("schemas".toList ++ '/' :: rest)) = _
    rw [Url.splitOn_append _ (by decide), Url.splitOn_append _ (by decide)]
  have hchars : r.toList = '#' :: '/' :: ("components/schemas/".toList ++ rest) := hr
  unfold keys Pointer.keys?
  rw [hchars]
  simp only [hcut, List.map_cons]
  rw [show Pointer.decodeChars "components".toList = "components".toList by decide +kernel,
    show Pointer.decodeChars "schemas".toList = "schemas".toList by decide +kernel]
  rfl

theorem keys_of_schemaName? {r name : String} (h : schemaName? r = some name) :
    keys r = .ok ["components", "schemas", name] := by
  obtain ⟨segment, hr, -, hslash, rfl⟩ := schemaName?_eq_some h
  rw [keys_schemas hr, Url.splitOn_of_notMem hslash]
  rfl

theorem ne_empty_of_schemaName? {r name : String} (h : schemaName? r = some name) : name ≠ "" := by
  obtain ⟨segment, -, hne, -, rfl⟩ := schemaName?_eq_some h
  intro he
  have := congrArg String.toList he
  rw [String.toList_ofList] at this
  exact Pointer.decodeChars_ne_nil hne this

/-- The pointer of a schema component leads to it. -/
theorem componentTarget_of_schemaName? {r name : String} (h : schemaName? r = some name) :
    componentTarget r = .ok (some ⟨"schemas", name⟩) := by
  unfold componentTarget
  rw [keys_of_schemaName? h, Outcome.ok_bind]
  exact if_pos ⟨rfl, by decide, ne_empty_of_schemaName? h⟩

theorem lastSegment_of_schemaName? {r : String} {segment : List Char}
    (hr : r.toList = "#/components/schemas/".toList ++ segment) (hslash : '/' ∉ segment) :
    BindingName.lastSegment r.toList = segment := by
  have hsplit : "#/components/schemas/".toList = "#/components/schemas".toList ++ ['/'] := by
    decide +kernel
  rw [hr, hsplit, List.append_assoc]
  exact BindingName.lastSegment_append _ hslash

/-- The binding that a pointer of a schema component gets comes from the component's name. -/
theorem ofReference_of_schemaName? {r name binding : String} (h : schemaName? r = some name)
    (hb : BindingName.ofReference r = .ok binding) :
    binding = String.ofList (BindingName.ofName name.toList) := by
  obtain ⟨segment, hr, -, hslash, rfl⟩ := schemaName?_eq_some h
  rw [BindingName.ofReference_eq_ok hb, lastSegment_of_schemaName? hr hslash, String.toList_ofList]

/-- A pointer of a schema component has a binding as soon as the component has one. -/
theorem exists_ofReference {r name binding : String} (h : schemaName? r = some name)
    (hb : BindingName.ofReference (Pointer.forComponent "schemas" name) = .ok binding) :
    ∃ own, BindingName.ofReference r = .ok own := by
  obtain ⟨segment, hr, hne, hslash, rfl⟩ := schemaName?_eq_some h
  refine ⟨_, BindingName.ofReference_of_segment (lastSegment_of_schemaName? hr hslash) hne ?_⟩
  intro hhash
  -- Neither layer of escapes touches a `#`, so the component's own pointer would have it there too.
  obtain ⟨cs, rfl⟩ : ∃ cs, segment = '#' :: cs := by
    cases segment with
    | nil => simp at hhash
    | cons c cs => exact ⟨cs, by simpa using hhash⟩
  refine BindingName.head?_ne_of_ofReference hb ?_
  rw [BindingName.lastSegment_forComponent, String.toList_ofList,
    Pointer.decodeChars_cons (by decide) (by decide), Pointer.encodeChars]
  rfl

end Reference

namespace BindingName

open Reference (schemaName?)

/-- A component takes its binding from the decoded name, a pointer to it from the name itself. The
two are one as long as decoding the name makes no difference to the binding, and so when nothing in
the name looks percent-encoded. -/
theorem ofReference_forComponent_iff {r name binding : String} (h : schemaName? r = some name)
    (hb : ofReference (Pointer.forComponent "schemas" name) = .ok binding) :
    binding = String.ofList (ofName (Text.Percent.decode name.toList))
    ∧ ofReference r = .ok (String.ofList (ofName name.toList))
    ∧ (ofReference r = .ok binding
      ↔ ofName (Text.Percent.decode name.toList) = ofName name.toList)
    ∧ (Text.Percent.Plain name.toList → ofReference r = .ok binding) := by
  have hbinding := ofReference_forComponent hb
  obtain ⟨own, hown⟩ := Reference.exists_ofReference h hb
  rw [Reference.ofReference_of_schemaName? h hown] at hown
  have hiff : ofReference r = .ok binding
      ↔ ofName (Text.Percent.decode name.toList) = ofName name.toList := by
    rw [hown, hbinding, Except.ok.injEq, String.ofList_inj, eq_comm]
  refine ⟨hbinding, hown, hiff, fun hplain => hiff.2 ?_⟩
  rw [Text.Percent.decode_of_plain hplain]

/-- A name with a blank, written with an escape, and a slash. -/
theorem ofReference_forComponent_iff_cat :
    schemaName? "#/components/schemas/cat%20a~1b" = some "cat a/b"
    ∧ ofReference (Pointer.forComponent "schemas" "cat a/b") = .ok "cat_a_bSchema"
    ∧ ofReference "#/components/schemas/cat%20a~1b" = .ok "cat_a_bSchema" := by
  have hname : schemaName? "#/components/schemas/cat%20a~1b" = some "cat a/b" := by
    decide +kernel
  have hb : ofReference (Pointer.forComponent "schemas" "cat a/b") = .ok "cat_a_bSchema" := by
    decide +kernel
  refine ⟨hname, hb, (ofReference_forComponent_iff hname hb).2.2.1.2 ?_⟩
  decide +kernel

/-- A name that looks percent-encoded: the component goes by another binding than the pointer that
leads to it. -/
theorem ofReference_ne_percent :
    schemaName? "#/components/schemas/%2541" = some "%41"
    ∧ ofReference (Pointer.forComponent "schemas" "%41") = .ok "aSchema"
    ∧ ofReference "#/components/schemas/%2541" = .ok "_41Schema" := by
  decide +kernel

end BindingName

end ZodGen
