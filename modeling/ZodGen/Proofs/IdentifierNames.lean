import ZodGen.Proofs.ConstantScript
import ZodGen.Proofs.PointerNames

/-!
# Which names are identifiers

A validator's name keeps the letters and numbers of a component's name, lower-cases the first
character and writes `_` for everything else. Letters and numbers are those of all scripts, which is
more than an identifier may hold: `²` is a number, `Ⓐ` a letter, and both are no part of any
identifier. A name is an identifier exactly when the component's name has no such character
(`ofReference_isIdentifier_iff`), and then a script reads it as one word.
-/

namespace ZodGen

/-! ## Letters and numbers that stray from identifiers -/

namespace Text

/-- A letter that no identifier starts with. -/
def strayStart (c : Char) : Bool := isAlphabetic c && !isIdStart c

/-- A letter or number that no identifier holds. -/
def strayPart (c : Char) : Bool := isAlphanumeric c && !isIdPart c

/-- Whether a range of code points lies in one of the ranges. -/
def lies (ranges : List (Nat × Nat)) (low high : Nat) : Bool :=
  ranges.any fun r => r.1.ble low && high.ble r.2

/-- Whether a range of code points meets none of the ranges. -/
def misses (ranges : List (Nat × Nat)) (low high : Nat) : Bool :=
  ranges.all fun r => high.blt r.1 || r.2.blt low

section Ranges

variable {ranges : List (Nat × Nat)} {low high n : Nat}

theorem inRanges_of_lies (h : lies ranges low high = true) (hlow : low ≤ n) (hhigh : n ≤ high) :
    inRanges ranges n = true := by
  obtain ⟨r, hr, hin⟩ := List.any_eq_true.1 h
  simp only [Bool.and_eq_true, Nat.ble_eq] at hin
  refine List.any_eq_true.2 ⟨r, hr, ?_⟩
  simp only [Bool.and_eq_true, decide_eq_true_eq]
  omega

theorem inRanges_of_misses (h : misses ranges low high = true) (hlow : low ≤ n) (hhigh : n ≤ high) :
    inRanges ranges n = false := by
  refine List.any_eq_false.2 fun r hr hin => ?_
  have hout := List.all_eq_true.1 h r hr
  simp only [Bool.or_eq_true, Bool.and_eq_true, decide_eq_true_eq, Nat.blt_eq] at hin hout
  omega

end Ranges

section Classes

variable {c : Char}

theorem isIdStart_of_le (h : 0x80 ≤ c.toNat) : isIdStart c = inRanges idStartRanges c.toNat := by
  rw [isIdStart, if_neg (by omega)]

theorem isAlphabetic_of_le (h : 0x80 ≤ c.toNat) :
    isAlphabetic c = inRanges alphabeticRanges c.toNat := by
  rw [isAlphabetic, if_neg (by omega)]

theorem strayStart_of_lt (h : c.toNat < 0x80) : strayStart c = false := by
  rw [strayStart, isAlphabetic, isIdStart, if_pos h, if_pos h]
  cases c.isAlpha <;> rfl

end Classes

/-! ## Lower case -/

/-- The code points from `low` to `high` are characters beyond ASCII. -/
def areChars (low high : Nat) : Bool :=
  0x80 ≤ low && (high < 0xD800 || (0xE000 ≤ low && high < 0x110000))

/-- Characters beyond ASCII that all start identifiers. -/
def allStart (low high : Nat) : Bool := areChars low high && lies idStartRanges low high

/-- Characters beyond ASCII that all are letters and start no identifier. -/
def allStray (low high : Nat) : Bool :=
  areChars low high && lies alphabeticRanges low high && misses idStartRanges low high

section Points

variable {low high n : Nat}

theorem toNat_ofNat (h : n.isValidChar) : (Char.ofNat n).toNat = n := by
  rw [Char.ofNat, dif_pos h]
  rfl

theorem toNat_ofNat_of_areChars (h : areChars low high = true) (hlow : low ≤ n) (hhigh : n ≤ high) :
    (Char.ofNat n).toNat = n ∧ 0x80 ≤ n := by
  simp only [areChars, Bool.and_eq_true, Bool.or_eq_true, decide_eq_true_eq] at h
  have hvalid : n.isValidChar := by
    unfold Nat.isValidChar
    omega
  exact ⟨toNat_ofNat hvalid, by omega⟩

theorem strayStart_of_allStart (h : allStart low high = true) (hlow : low ≤ n) (hhigh : n ≤ high) :
    strayStart (Char.ofNat n) = false := by
  rw [allStart, Bool.and_eq_true] at h
  obtain ⟨hn, hle⟩ := toNat_ofNat_of_areChars h.1 hlow hhigh
  rw [strayStart, isIdStart_of_le (by omega), hn, inRanges_of_lies h.2 hlow hhigh, Bool.not_true,
    Bool.and_false]

theorem strayStart_of_allStray (h : allStray low high = true) (hlow : low ≤ n) (hhigh : n ≤ high) :
    strayStart (Char.ofNat n) = true := by
  rw [allStray, Bool.and_eq_true, Bool.and_eq_true] at h
  obtain ⟨hn, hle⟩ := toNat_ofNat_of_areChars h.1.1 hlow hhigh
  rw [strayStart, isIdStart_of_le (by omega), isAlphabetic_of_le (by omega), hn,
    inRanges_of_lies h.1.2 hlow hhigh, inRanges_of_misses h.2 hlow hhigh]
  rfl

end Points

-- Two runs are off the pattern, and go point by point: one has its last step in the next range, one
-- ends in ASCII.
theorem lowercaseRuns_cases : ∀ run ∈ lowercaseRuns,
    (allStart run.1 run.2.1 = true
        ∧ allStart (run.1 + run.2.2.2).toNat (run.2.1 + run.2.2.2).toNat = true)
      ∨ (allStray run.1 run.2.1 = true
        ∧ allStray (run.1 + run.2.2.2).toNat (run.2.1 + run.2.2.2).toNat = true)
      ∨ ∀ n ∈ List.range' run.1 (run.2.1 + 1 - run.1), (n - run.1) % run.2.2.1 = 0 →
        allStart n n = true ∧ ((n + run.2.2.2).toNat < 0x80
          ∨ allStart (n + run.2.2.2).toNat (n + run.2.2.2).toNat = true) := by
  decide +kernel

/-- A code point stays as it is, or lies in a run and is moved by the distance of the run. -/
theorem lowercasePoint_cases (n : Nat) : lowercasePoint n = n ∨
    ∃ run ∈ lowercaseRuns, run.1 ≤ n ∧ n ≤ run.2.1 ∧ (n - run.1) % run.2.2.1 = 0
      ∧ lowercasePoint n = (n + run.2.2.2).toNat := by
  unfold lowercasePoint
  cases hfind : lowercaseRuns.find? _ with
  | none => exact .inl rfl
  | some run =>
    have hin := List.find?_some hfind
    simp only [Bool.and_eq_true, decide_eq_true_eq, beq_iff_eq] at hin
    exact .inr ⟨run, List.mem_of_find?_eq_some hfind, hin.1.1, hin.1.2, hin.2, rfl⟩

/-- Lower case turns no letter that starts identifiers into one that does not, nor back. -/
theorem strayStart_lowercasePoint (n : Nat) :
    strayStart (Char.ofNat (lowercasePoint n)) = strayStart (Char.ofNat n) := by
  obtain hsame | ⟨run, hrun, hlow, hhigh, hstep, hpoint⟩ := lowercasePoint_cases n
  · rw [hsame]
  · rw [hpoint]
    obtain ⟨hfrom, hto⟩ | ⟨hfrom, hto⟩ | hpoints := lowercaseRuns_cases run hrun
    · rw [strayStart_of_allStart hfrom hlow hhigh, strayStart_of_allStart hto] <;> omega
    · rw [strayStart_of_allStray hfrom hlow hhigh, strayStart_of_allStray hto] <;> omega
    · obtain ⟨hfrom, hto⟩ := hpoints n (List.mem_range'_1.2 (by omega)) hstep
      rw [strayStart_of_allStart hfrom n.le_refl n.le_refl]
      rcases hto with hascii | hto
      · have hchar := toNat_ofNat (n := (n + run.2.2.2).toNat) (.inl (by omega))
        exact strayStart_of_lt (by omega)
      · exact strayStart_of_allStart hto (Nat.le_refl _) (Nat.le_refl _)

end Text

/-! ## Names of validators -/

namespace BindingName

open Text (isIdentifier strayStart strayPart)

theorem isIdPart_further (c : Char) : Text.isIdPart (further c) = !strayPart c := by
  unfold further strayPart
  cases halnum : Text.isAlphanumeric c with
  | true => simp
  | false =>
    by_cases hmark : c = '_' ∨ c = '$'
    · obtain rfl | rfl := hmark <;> rfl
    · rw [not_or] at hmark
      simp [hmark]
      rfl

/-- The first character is kept if names can start like it; otherwise an underscore takes its
place. -/
theorem fixStart_cons (d : Char) (ds : List Char) : ∃ e, fixStart (d :: ds) = e :: ds
    ∧ Script.Token.startsLike e = true ∧ Text.isIdStart e = !strayStart d := by
  unfold fixStart strayStart
  dsimp only
  cases hd : Text.isAlphabetic d || d == '_' || d == '$' with
  | false =>
    have halpha : Text.isAlphabetic d = false := by
      simp only [Bool.or_eq_false_iff] at hd
      exact hd.1.1
    rw [halpha]
    exact ⟨'_', rfl, rfl, rfl⟩
  | true =>
    refine ⟨d, rfl, hd, ?_⟩
    cases halpha : Text.isAlphabetic d with
    | true => simp
    | false =>
      simp only [halpha, Bool.false_or, Bool.or_eq_true, beq_iff_eq] at hd
      obtain rfl | rfl := hd <;> rfl

theorem first_eq_cons (c : Char) :
    ∃ d ds, first c = d :: ds ∧ strayStart d = strayStart c ∧ ds.all Text.isIdPart = true := by
  unfold first Text.lowercase
  by_cases hascii : c.toNat < 0x80
  · rw [if_pos hascii, Text.strayStart_of_lt hascii]
    by_cases hdigit : c.isDigit = true
    · have hpart : Text.isIdPart c = true := by
        simp [Text.isIdPart, hascii, Char.isAlphanum, hdigit]
      exact ⟨'_', [c], if_pos hdigit, rfl, by simp [hpart]⟩
    · have hlower : ∀ n < 0x80, strayStart (Char.ofNat n).toLower = false := by decide
      have hc := hlower c.toNat hascii
      rw [Char.ofNat_toNat] at hc
      exact ⟨c.toLower, [], if_neg hdigit, hc, rfl⟩
  · rw [if_neg fun h => hascii (Text.toNat_lt_of_isDigit h), if_neg hascii]
    by_cases hdot : c.toNat = 0x130
    · obtain rfl : c = Char.ofNat 0x130 := by rw [← hdot, Char.ofNat_toNat]
      exact ⟨'i', [Char.ofNat 0x307], rfl, rfl, by decide +kernel⟩
    · refine ⟨_, [], if_neg hdot, ?_, rfl⟩
      rw [Text.strayStart_lowercasePoint, Char.ofNat_toNat]

theorem further_ne_backslash (c : Char) : further c ≠ '\\' := by
  unfold further
  split
  · rintro rfl
    simp_all [show Text.isAlphanumeric '\\' = false from rfl]
  · decide

/-- A name made from a component's name starts like a word, and it is an identifier unless a
character of the component's name strays. -/
theorem ofName_cons (c : Char) (cs : List Char) : ∃ d ds, ofName (c :: cs) = d :: ds
    ∧ Script.Token.startsLike d = true ∧ '\\' ∉ ds ∧ "Schema".toList <:+ ds
    ∧ isIdentifier (d :: ds) = (!strayStart c && cs.all (!strayPart ·)) := by
  obtain ⟨d, ds, hfirst, hd, hds⟩ := first_eq_cons c
  obtain ⟨e, hfix, he, hstart⟩ := fixStart_cons d (ds ++ cs.map further)
  refine ⟨e, ds ++ cs.map further ++ "Schema".toList, ?_, he, ?_, List.suffix_append _ _, ?_⟩
  · rw [ofName, hfirst, List.cons_append, hfix]
    rfl
  · have hslash : '\\' ∉ ds := fun hm =>
      Script.Token.ne_backslash_of_isIdPart (List.all_eq_true.1 hds _ hm) rfl
    simp [hslash, further_ne_backslash]
  · have hschema : "Schema".toList.all Text.isIdPart = true := rfl
    simp only [isIdentifier, hstart, hd, List.all_append, hds, List.all_map, hschema,
      Bool.true_and, Bool.and_true, Function.comp_def, isIdPart_further]

theorem isFree_of_suffix {cs : List Char} (h : "Schema".toList <:+ cs) :
    Script.Parser.IsFree (String.ofList cs) := by
  have hwords : ∀ word ∈ Script.Parser.keywords ++ Script.Token.marks,
      ¬ "Schema".toList <:+ word.toList := by decide +kernel
  rintro word hword rfl
  rw [← String.toList_ofList (l := cs)] at h
  exact hwords _ hword h

theorem exists_cons_of_ofReference {text name : String} (h : ofReference text = .ok name) :
    ∃ c cs, Pointer.decodeChars (lastSegment text.toList) = c :: cs
      ∧ name = String.ofList (ofName (c :: cs)) := by
  have hname := ofReference_eq_ok h
  cases hdecoded : Pointer.decodeChars (lastSegment text.toList) with
  | nil => simp [ofReference, hdecoded, fail] at h
  | cons c cs => exact ⟨c, cs, rfl, hdecoded ▸ hname⟩

open Script in
/-- A name ends in `Schema`. It is an identifier exactly if no letter or number of the component's
name strays, and this is when a script reads it as one word. Then a constant of that name can be
declared. -/
theorem ofReference_isIdentifier_iff {text name : String} (h : ofReference text = .ok name) :
    "Schema".toList <:+ name.toList
    ∧ (isIdentifier name.toList = true ↔
      ∃ c cs, Pointer.decodeChars (lastSegment text.toList) = c :: cs
        ∧ strayStart c = false ∧ ∀ d ∈ cs, strayPart d = false)
    ∧ (Token.ReadsAsWord name.toList ↔ isIdentifier name.toList = true)
    ∧ (isIdentifier name.toList = true →
      parse ("const " ++ name ++ " = 0;") = .ok (constantProgram name.toList)) := by
  obtain ⟨c, cs, hdecoded, rfl⟩ := exists_cons_of_ofReference h
  obtain ⟨d, ds, hname, hlike, hslash, hschema, hident⟩ := ofName_cons c cs
  have hsuffix : "Schema".toList <:+ d :: ds := hschema.trans (List.suffix_cons d ds)
  rw [hname, hdecoded]
  simp only [String.toList_ofList]
  refine ⟨hsuffix, ?_, Token.readsAsWord_iff hlike hslash,
    fun hident => parse_constant hlike hident (isFree_of_suffix hsuffix)⟩
  rw [hident]
  simp

open Script in
/-- A capital that becomes two characters, and a character that fits in no name. -/
theorem ofReference_isIdentifier_iff_dotted :
    ofReference "#/components/schemas/\u0130d-3" = .ok "i\u0307d_3Schema"
    ∧ isIdentifier "i\u0307d_3Schema".toList = true
    ∧ parse ("const " ++ "i\u0307d_3Schema" ++ " = 0;")
      = .ok (constantProgram "i\u0307d_3Schema".toList) := by
  have h : ofReference "#/components/schemas/\u0130d-3" = .ok "i\u0307d_3Schema" := by
    decide +kernel
  have hident : isIdentifier "i\u0307d_3Schema".toList = true := by decide +kernel
  exact ⟨h, hident, (ofReference_isIdentifier_iff h).2.2.2 hident⟩

open Script in
/-- The name of a component may be no identifier, and then no constant can have it. -/
theorem ofReference_not_isIdentifier :
    ofReference "#/components/schemas/x²" = .ok "x²Schema"
    ∧ isIdentifier "x²Schema".toList = false
    ∧ (parse ("const " ++ "x²Schema" ++ " = 0;")).map (fun _ => ())
      = fail .malformedSource "1:8" := by
  decide +kernel

end BindingName

end ZodGen
