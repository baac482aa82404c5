import ZodGen.Proofs.Decimals
import ZodGen.Proofs.Members
import ZodGen.Proofs.PointerNames
import ZodGen.Proofs.References

/-!
# Pointers to nodes

Every node of a document has a pointer that leads to it (`resolve_forSteps`). A segment for a key is
the escaped key with each `%` written `%25`. The three layers of escapes are undone in another order
than they are written, first the slashes, then the tildes and last the percent signs, which is no
harm: writing percent signs adds no tilde, so it does not matter whether tildes are read before or
after (`unescape_escape`).
-/

namespace ZodGen

/-! ## Percent signs -/

namespace Text.Percent

/-- A text with each `%` written `%25`. -/
def escape (cs : List Char) : List Char :=
  cs.flatMap fun c => if c = '%' then ['%', '2', '5'] else [c]

theorem escape_percent (cs : List Char) : escape ('%' :: cs) = '%' :: '2' :: '5' :: escape cs := rfl

theorem escape_cons {c : Char} (h : c ≠ '%') (cs : List Char) :
    escape (c :: cs) = c :: escape cs := by
  simp [escape, h]

theorem decode_replicate : ∀ n : Nat, Utf8.decode (List.replicate n 0x25) = List.replicate n '%'
  | 0 => by simp [Utf8.decode]
  | n + 1 => by
    rw [List.replicate_succ, Utf8.decode, List.replicate_succ]
    exact congrArg ('%' :: ·) (decode_replicate n)

/-- Percent signs that stand side by side are read in one run, the others one by one. -/
theorem decodeFrom_escape : ∀ (cs : List Char) (n : Nat),
    decodeFrom (List.replicate n 0x25) (escape cs) = List.replicate n '%' ++ cs
  | [], n => by
    rw [escape, List.flatMap_nil, decodeFrom, List.reverse_replicate, decode_replicate,
      List.append_nil]
  | c :: cs, n => by
    by_cases hc : c = '%'
    · subst hc
      rw [escape_percent, decodeFrom]
      have ih := decodeFrom_escape cs (n + 1)
      split
      · rename_i b rest htriplet
        cases htriplet
        rw [List.append_cons, ← List.replicate_succ']
        exact ih
      · rename_i htriplet
        cases htriplet
    · rw [escape_cons hc, decodeFrom]
      have ih := decodeFrom_escape cs 0
      split
      · rename_i b rest htriplet
        rw [triplet?_cons hc] at htriplet
        cases htriplet
      · rw [List.reverse_replicate, decode_replicate]
        exact congrArg (fun ds => List.replicate n '%' ++ c :: ds) ih

theorem decode_escape (cs : List Char) : decode (escape cs) = cs := decodeFrom_escape cs 0

end Text.Percent

/-! ## Segments -/

namespace Pointer

open Text.Percent (escape escape_percent escape_cons decode_escape)

/-- Percent signs may be escaped before or after the escapes of pointers are taken back. By cases on
what stands behind a tilde. -/
theorem unescape_escape {mark plain : Char} (hmark : mark ≠ '%') (hplain : plain ≠ '%') :
    ∀ cs : List Char,
      unescape mark plain (escape cs) = escape (unescape mark plain cs)
  | [] => rfl
  | [c] => by
    by_cases hc : c = '%'
    · subst hc
      rw [escape_percent, unescape_cons_of_ne (by decide), unescape_cons_of_ne (by decide),
        unescape_cons_of_ne (by decide)]
      rfl
    · rw [escape_cons hc]
      simp [escape, unescape, hc]
  | c :: d :: cs => by
    have ih := unescape_escape hmark hplain (d :: cs)
    by_cases hc : c = '%'
    · subst hc
      rw [escape_percent, unescape_cons_of_ne (by decide), unescape_cons_of_ne (by decide),
        unescape_cons_of_ne (by decide), unescape_cons_of_ne (by decide), escape_percent, ih]
    · by_cases hmatch : c = '~' ∧ d = mark
      · obtain ⟨rfl, rfl⟩ := hmatch
        rw [escape_cons hc, escape_cons hmark, unescape, if_pos ⟨rfl, rfl⟩, unescape,
          if_pos ⟨rfl, rfl⟩, escape_cons hplain, unescape_escape hmark hplain cs]
      · rw [escape_cons hc, unescape, if_neg hmatch, escape_cons hc, ← ih]
        -- The character behind `c` is the same as before, so it is still no escape.
        obtain ⟨rest, hrest⟩ : ∃ rest, escape (d :: cs) = d :: rest := by
          by_cases hd : d = '%'
          · exact ⟨_, hd ▸ escape_percent cs⟩
          · exact ⟨_, escape_cons hd cs⟩
        rw [hrest, unescape, if_neg hmatch]

/-- A key comes back from its segment, whatever it holds. -/
theorem decodeChars_escape (cs : List Char) : decodeChars (escape (encodeChars cs)) = cs := by
  rw [decodeChars, unescape_escape (by decide) (by decide), unescape_escape (by decide) (by decide),
    unescape_encodeChars, unescape_encodeTildes, decode_escape]

theorem decodeChars_digits : ∀ {cs : List Char}, (∀ c ∈ cs, c.isDigit = true) →
    decodeChars cs = cs
  | [], _ => decodeChars_escape []
  | c :: cs, h => by
    obtain ⟨hc, hcs⟩ := List.forall_mem_cons.1 h
    rw [decodeChars_cons (by rintro rfl; simp at hc) (by rintro rfl; simp at hc),
      decodeChars_digits hcs]

/-- A step down from a value: to the member under a key, or to the item at a place. -/
inductive Step where
  | key (name : String)
  | index (i : Nat)
  deriving DecidableEq, Repr

namespace Step

/-- What a step is by name. -/
def text : Step → String
  | key name => name
  | index i => toString i

/-- What a step is in a pointer. -/
def segment : Step → List Char
  | key name => escape (encodeSegment name).toList
  | index i => (toString i).toList

theorem isDigit_of_mem_index {i : Nat} : ∀ c ∈ (toString i).toList, c.isDigit = true := by
  intro c hc
  rw [Nat.toString_eq_repr, Nat.repr_eq_ofList_toDigits, String.toList_ofList] at hc
  exact Nat.isDigit_of_mem_toDigits (by decide) (by decide) hc

/-- A segment has no slash, so a pointer is split where its steps meet. -/
theorem slash_notMem_segment (s : Step) : '/' ∉ s.segment := by
  cases s with
  | key name =>
    intro hm
    obtain ⟨c, hc, hm⟩ := List.mem_flatMap.1 hm
    rw [encodeSegment, String.toList_ofList] at hc
    split_ifs at hm
    · simp at hm
    · rw [← List.mem_singleton.1 hm] at hc
      exact slash_notMem_encodeChars _ hc
  | index i => exact fun hm => absurd (isDigit_of_mem_index _ hm) (by decide)

theorem decodeChars_segment (s : Step) : decodeChars s.segment = s.text.toList := by
  cases s with
  | key name =>
    show decodeChars (escape (encodeSegment name).toList) = name.toList
    rw [encodeSegment, String.toList_ofList, decodeChars_escape]
  | index i => exact decodeChars_digits isDigit_of_mem_index

end Step

/-! ## Pointers -/

/-- The pointer that takes the steps of a path: `#`, and a slash before each segment. -/
def forSteps (path : List Step) : String :=
  String.ofList ('#' :: path.flatMap fun s => '/' :: s.segment)

theorem splitOn_segments : ∀ (path : List Step) {cs : List Char}, '/' ∉ cs →
    Url.splitOn '/' (cs ++ path.flatMap fun s => '/' :: s.segment) = cs :: path.map Step.segment
  | [], cs, h => by
    rw [List.flatMap_nil, List.append_nil, Url.splitOn_of_notMem h]
    rfl
  | s :: path, cs, h => by
    rw [List.flatMap_cons, List.cons_append, Url.splitOn_append _ h,
      splitOn_segments path s.slash_notMem_segment]
    rfl

/-- The pointer for a path is read as the keys of the path. -/
theorem keys?_forSteps (path : List Step) : keys? (forSteps path) = some (path.map Step.text) := by
  unfold keys? forSteps
  rw [String.toList_ofList]
  cases path with
  | nil => rfl
  | cons s path =>
    simp only [List.flatMap_cons, List.cons_append, splitOn_segments path s.slash_notMem_segment,
      ← List.map_cons (f := Step.segment), List.map_map]
    refine congrArg some (List.map_congr_left fun t _ => ?_)
    rw [Function.comp_apply, Step.decodeChars_segment, String.ofList_toList]

end Pointer

/-! ## Nodes -/

namespace Value

/-- A path leads from a value to a node in it. -/
inductive HasAt : Value → List Pointer.Step → Value → Prop
  | root (v : Value) : HasAt v [] v
  | key {ms : List (String × Value)} {name : String} {w node : Value} {path : List Pointer.Step}
    (hm : (name, w) ∈ ms) (h : HasAt w path node) : HasAt (.obj ms) (.key name :: path) node
  | index {items : List Value} {i : Nat} {w node : Value} {path : List Pointer.Step}
    (hi : items[i]? = some w) (h : HasAt w path node) : HasAt (.arr items) (.index i :: path) node

end Value

namespace Reference

theorem index?_of_digits {key : String} (hne : key.toList ≠ [])
    (hall : ∀ c ∈ key.toList, c.isDigit = true) : index? key = some (Json.ofDigits key.toList) := by
  unfold index?
  split
  · rename_i ds hsign
    exact absurd (hall '+' (by simp [hsign])) (by decide)
  · simpa [hne] using hall

theorem index?_toString (i : Nat) : index? (toString i) = some i := by
  have hdigits : (toString i).toList = Nat.toDigits 10 i := by
    rw [Nat.toString_eq_repr, Nat.repr_eq_ofList_toDigits, String.toList_ofList]
  rw [index?_of_digits (hdigits ▸ Nat.toDigits_ne_nil) Pointer.Step.isDigit_of_mem_index, hdigits,
    Json.ofDigits_toDigits]

/-- Walking along the keys of a path comes to what stands there. Without repeated keys, the first
member with a key is the only one. -/
theorem walk?_of_hasAt {v node : Value} {path : List Pointer.Step} (h : v.HasAt path node)
    (hd : v.distinctKeys = true) : walk? v (path.map Pointer.Step.text) = some node := by
  induction h with
  | root v => rfl
  | @key ms name w node path hm _ ih =>
    obtain ⟨hn, hvalues⟩ := Value.distinctKeys_obj.1 hd
    have hstep : step? (.obj ms) name = some w := Assoc.get?_of_mem hn hm
    show (step? (.obj ms) name).bind _ = _
    rw [hstep, Option.bind_some]
    exact ih (hvalues w (List.mem_map_of_mem (f := Prod.snd) hm))
  | @index items i w node path hi _ ih =>
    rw [Value.distinctKeys, Value.distinctKeysOfItems_iff] at hd
    have hstep : step? (.arr items) (toString i) = some w := by
      rw [step?, index?_toString, Option.bind_some, hi]
    show (step? (.arr items) (toString i)).bind _ = _
    rw [hstep, Option.bind_some]
    exact ih (hd w (List.mem_of_getElem? hi))

/-- The pointer that takes the steps of a path leads to the node at its end. -/
theorem resolve_forSteps {doc node : Value} {path : List Pointer.Step}
    (hd : doc.distinctKeys = true) (h : doc.HasAt path node) :
    resolve doc (Pointer.forSteps path) = .ok node := by
  refine resolve_eq_ok.2 ⟨path.map Pointer.Step.text, ?_, walk?_of_hasAt h hd⟩
  rw [keys, Pointer.keys?_forSteps]

/-- An empty key, and one with all that is escaped and some that looks so. -/
def attic : Value :=
  .obj [("", .arr [.null, .obj [("box", .null), ("~1%2F/é~0%", .str "hat")]])]

theorem resolve_forSteps_attic :
    attic.distinctKeys = true
    ∧ attic.HasAt [.key "", .index 1, .key "~1%2F/é~0%"] (.str "hat")
    ∧ resolve attic "#//1/~01%252F~1é~00%25" = .ok (.str "hat") := by
  have hd : attic.distinctKeys = true := by decide
  have hat : attic.HasAt [.key "", .index 1, .key "~1%2F/é~0%"] (.str "hat") :=
    .key List.mem_cons_self <| .index rfl <| .key (by simp) (.root _)
  have hpointer : Pointer.forSteps [.key "", .index 1, .key "~1%2F/é~0%"]
      = "#//1/~01%252F~1é~00%25" := by decide +kernel
  exact ⟨hd, hat, hpointer ▸ resolve_forSteps hd hat⟩

end Reference

end ZodGen
