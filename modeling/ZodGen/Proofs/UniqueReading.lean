import ZodGen.Proofs.CallChain
import ZodGen.Proofs.JsonText
import ZodGen.Proofs.NormalForm

/-!
# Rendering loses no structure

The text of a chain of calls can be taken apart into its calls, each in front of the next, and the
argument of each call into what it is made of (`Sorts.apart_link`, `apart_code`). The calls,
replayed one after the other, give the validator back (`foldl_grow_links`), in the normal form that
rendering knows: a property that is not required is written like a required one that is optional. So
two validators with one text have one normal form (`render_eq_iff_norm_eq`).
-/

namespace ZodGen

open Chain (Kind Word Link)

/-! ## Replaying a chain -/

namespace Chain

def Kind.norm : (k : Kind) → k.Argument → k.Argument
  | .nothing, a => a
  | .fields, fs => List.map Validator.normField fs
  | .number, n => n
  | .item, v => Validator.norm v
  | .texts, ts => ts
  | .value, x => x
  | .name, s => s
  | .options, vs => List.map Validator.norm vs
  | .tagged, (d, vs) => (d, List.map Validator.norm vs)
  | .text, s => s

/-- A call with what is in its argument in normal form. -/
def Link.norm (l : Link) : Link := ⟨l.word, l.word.kind.norm l.argument⟩

end Chain

/-- A form with the bounds of its number changed. -/
def Form.mapBounds (f : Bounds → Bounds) : Form Validator → Form Validator
  | .number b => .number (f b)
  | .coerce ⟨.number b, d⟩ => .coerce ⟨.number (f b), d⟩
  | form => form

namespace Validator

/-- What a call makes of a validator. -/
def grow (v : Validator) : Link → Validator
  | ⟨.object, fs⟩ => object ⟨fs, Assoc.keys fs⟩
  | ⟨.string, _⟩ => plain .string
  | ⟨.number, _⟩ => plain (.number ⟨none, none⟩)
  | ⟨.min, n⟩ => { v with form := v.form.mapBounds fun b => ⟨some n, b.max⟩ }
  | ⟨.max, n⟩ => { v with form := v.form.mapBounds fun b => ⟨b.min, some n⟩ }
  | ⟨.boolean, _⟩ => plain .boolean
  | ⟨.datetime, _⟩ => plain .datetime
  | ⟨.any, _⟩ => plain .any
  | ⟨.undefined, _⟩ => plain .undefined
  | ⟨.array, item⟩ => plain (.array item)
  | ⟨.enum, values⟩ => plain (.enum values)
  | ⟨.literal, x⟩ => plain (.literal x)
  | ⟨.lazy, name⟩ => plain (.reference name)
  | ⟨.coerceNumber, _⟩ => plain (.coerce (plain (.number ⟨none, none⟩)))
  | ⟨.coerceBoolean, _⟩ => plain (.coerce (plain .boolean))
  | ⟨.nullable, _⟩ => plain (.nullable v)
  | ⟨.optional, _⟩ => v.optional
  | ⟨.default, x⟩ => plain (.default v x)
  | ⟨.union, options⟩ => plain (.union options)
  | ⟨.discriminatedUnion, (d, options)⟩ => plain (.discriminatedUnion d options)
  | ⟨.extend, fs⟩ => plain (.extend v ⟨fs, Assoc.keys fs⟩)
  | ⟨.describe, d⟩ => { v with description := some d }

/-- One case for each form: the last call makes the form of what the calls before it have made. -/
theorem foldl_grow_linksOfForm {form : Form Validator} (hform : form.Readable)
    (hrenders : form.Renders) (hchildren : ∀ w ∈ form.children, ∀ start,
      (w.links.map Link.norm).foldl grow start = w.norm) (start : Validator) :
    ((linksOfForm form).map Link.norm).foldl grow start = plain (normForm form) := by
  cases form with
  | object shape =>
    obtain ⟨ps, required⟩ := shape
    rw [normForm, normFields_eq, ← keys_fields required ps, linksOfForm]
    rfl
  | string | boolean | datetime | any | undefined | enum | literal | reference => rfl
  | number b =>
    obtain ⟨_ | m, _ | n⟩ := b <;> rfl
  | array item => rfl
  | coerce inner =>
    obtain ⟨form, d⟩ := inner
    obtain rfl : d = none := hform.coerce _ rfl
    have hcoercible := hrenders.coerce _ rfl
    cases form with
    | number b => obtain ⟨_ | m, _ | n⟩ := b <;> rfl
    | boolean => rfl
    | _ => cases hcoercible
  | nullable inner | optional inner | default inner =>
    rw [linksOfForm, List.map_append, List.foldl_append, hchildren inner List.mem_cons_self]
    rfl
  | union options =>
    rw [normForm, normAll_eq, linksOfForm]
    rfl
  | discriminatedUnion d options =>
    rw [normForm, normAll_eq, linksOfForm]
    rfl
  | merge parts => exact absurd rfl (hform.merge parts)
  | extend base shape =>
    obtain ⟨ps, required⟩ := shape
    rw [normForm, normFields_eq, ← keys_fields required ps, linksOfForm, List.map_append,
      List.foldl_append, hchildren base List.mem_cons_self]
    rfl

/-- The calls of a validator, replayed, give its normal form. -/
theorem foldl_grow_links (v : Validator)
    (hv : ∀ node ∈ v.nodes, node.Readable ∧ node.Renders) :
    ∀ start, (v.links.map Link.norm).foldl grow start = v.norm := by
  induction v using induction_children with
  | h v ih =>
    intro start
    obtain ⟨form, d⟩ := v
    rw [nodes_eq] at hv
    simp only [mem_nodesOfForm] at hv
    obtain ⟨hreadable, hrenders⟩ := hv form (.inl rfl)
    have hform := foldl_grow_linksOfForm hreadable hrenders
      (fun w hw => ih w hw fun node hnode => hv node (.inr ⟨w, hw, hnode⟩)) start
    rw [links, norm, List.map_append, List.foldl_append, hform]
    cases d <;> rfl

end Validator

/-! ## Legible validators -/

/-- The numbers that a node itself has. -/
def Form.numbers {α : Type} : Form α → List Number
  | .number b => b.min.toList ++ b.max.toList
  | .literal x => Json.numbers x
  | .default _ x => Json.numbers x
  | _ => []

/-- A node that is rendered and can be told from others, with numbers out of a set. -/
structure Form.Legible (N : Set Number) (form : Form Validator) : Prop where
  readable : form.Readable
  renders : form.Renders
  numbers : ∀ n ∈ form.numbers, n ∈ N

namespace Chain

def AllOf (Q : Validator → Prop) (vs : List Validator) : Prop := ∀ v ∈ vs, Q v

/-- What is in an argument has a property, its numbers are out of a set, and a name in it does not
close the call. -/
def Kind.All (Q : Validator → Prop) (N : Set Number) : (k : Kind) → k.Argument → Prop
  | .nothing, _ => True
  | .fields, fs => AllOf Q (Assoc.values fs)
  | .number, n => n ∈ N
  | .item, v => Q v
  | .texts, _ => True
  | .value, x => ∀ n ∈ Json.numbers x, n ∈ N
  | .name, s => ')' ∉ String.toList s
  | .options, vs => AllOf Q vs
  | .tagged, (_, vs) => AllOf Q vs
  | .text, _ => True

theorem Kind.All.imp {Q R : Validator → Prop} {N : Set Number} (hQ : ∀ v, Q v → R v) :
    ∀ {k : Kind} {a : k.Argument}, k.All Q N a → k.All R N a
  | .fields, _, h => fun v hv => hQ v (h v hv)
  | .item, v, h => hQ v h
  | .options, _, h => fun v hv => hQ v (h v hv)
  | .tagged, _, h => fun v hv => hQ v (h v hv)
  | .number, _, h | .value, _, h | .name, _, h => h
  | .nothing, _, _ | .texts, _, _ | .text, _, _ => trivial

def Link.All (Q : Validator → Prop) (N : Set Number) (l : Link) : Prop :=
  l.word.kind.All Q N l.argument

end Chain

namespace Validator

variable {N : Set Number}

def Legible (N : Set Number) (v : Validator) : Prop := ∀ node ∈ v.nodes, node.Legible N

theorem legible_iff {v : Validator} :
    v.Legible N ↔ v.form.Legible N ∧ ∀ w ∈ v.form.children, w.Legible N := by
  unfold Legible
  rw [nodes_eq]
  simp only [mem_nodesOfForm]
  constructor
  · exact fun h => ⟨h _ (.inl rfl), fun w hw node hnode => h node (.inr ⟨w, hw, hnode⟩)⟩
  · rintro ⟨hform, hchildren⟩ node (rfl | ⟨w, hw, hnode⟩)
    · exact hform
    · exact hchildren w hw node hnode

theorem Legible.optional {v : Validator} (h : v.Legible N) : v.optional.Legible N := by
  refine legible_iff.2 ⟨⟨⟨?_, ?_, ?_, ?_⟩, ⟨?_, ?_, ?_⟩, ?_⟩, ?_⟩ <;>
    simp [Validator.optional, plain, Form.numbers, Form.children, h]

theorem Legible.toList_code {v : Validator} (h : v.Legible N) :
    v.code.toList = 'z' :: v.links.flatMap Link.chars := by
  obtain ⟨s, hs⟩ := (exists_render_iff v).2 fun node hnode => (h node hnode).renders
  rw [code_of_render hs]
  exact toList_of_render v (fun node hnode => (h node hnode).readable) hs

/-- A legible validator that is smaller than another. -/
def Smaller (N : Set Number) (v w : Validator) : Prop := w.Legible N ∧ sizeOf w < sizeOf v

theorem all_fields {required : List String} {ps : List (String × Validator)} {Q : Validator → Prop}
    (h : ∀ v ∈ Assoc.values ps, Q v ∧ Q v.optional) :
    Chain.AllOf Q (Assoc.values (fields required ps)) := by
  intro v hv
  obtain ⟨f, hf, rfl⟩ := List.mem_map.1 hv
  obtain ⟨p, hp, rfl⟩ := List.mem_map.1 hf
  obtain ⟨hplain, hoptional⟩ := h p.2 (List.mem_map_of_mem hp)
  dsimp only
  split
  · exact hplain
  · exact hoptional

theorem all_bounds {Q : Validator → Prop} {b : Bounds}
    (h : ∀ n ∈ b.min.toList ++ b.max.toList, n ∈ N) : ∀ l ∈ b.links, l.All Q N := by
  intro l hl
  rcases List.mem_append.1 hl with hl | hl <;> obtain ⟨n, hn, rfl⟩ := List.mem_map.1 hl
  · exact h n (List.mem_append_left _ hn)
  · exact h n (List.mem_append_right _ hn)

theorem Smaller.of_child {v w : Validator} (hv : v.Legible N) (hw : w ∈ v.form.children) :
    Smaller N v w := by
  refine ⟨(legible_iff.1 hv).2 w hw, ?_⟩
  have hlt := sizeOf_children_lt hw
  obtain ⟨form, d⟩ := v
  simp only [Validator.mk.sizeOf_spec] at hlt ⊢
  omega

theorem Smaller.optional {v w : Validator} (h : w.Legible N) (hlt : sizeOf w + 3 < sizeOf v) :
    Smaller N v w.optional := by
  refine ⟨h.optional, ?_⟩
  simp only [Validator.optional, plain, Validator.mk.sizeOf_spec, Form.optional.sizeOf_spec,
    Option.none.sizeOf_spec]
  omega

theorem Smaller.links {v w : Validator} (h : Smaller N v w)
    (hlinks : ∀ l ∈ w.links, l.All (Smaller N w) N) : ∀ l ∈ w.links, l.All (Smaller N v) N :=
  fun l hl => (hlinks l hl).imp fun _ hu => ⟨hu.1, hu.2.trans h.2⟩

/-- One case for each form: what is in the calls of a form is smaller than the form. -/
theorem all_linksOfForm {form : Form Validator} {d : Option String}
    (hv : Legible N ⟨form, d⟩)
    (hchildren : ∀ w ∈ form.children, ∀ l ∈ w.links, l.All (Smaller N w) N) :
    ∀ l ∈ linksOfForm form, l.All (Smaller N ⟨form, d⟩) N := by
  obtain ⟨hform, hlegible⟩ := legible_iff.1 hv
  have hsmaller : ∀ w ∈ form.children, Smaller N ⟨form, d⟩ w := fun w hw => .of_child hv hw
  cases form with
  | object shape =>
    obtain ⟨ps, required⟩ := shape
    intro l hl
    obtain rfl := List.mem_singleton.1 hl
    refine all_fields fun w hw => ⟨hsmaller w hw, .optional (hlegible w hw) ?_⟩
    have hlt := sizeOf_values_lt hw
    simp only [Validator.mk.sizeOf_spec, Form.object.sizeOf_spec, Shape.mk.sizeOf_spec]
    omega
  | number b =>
    intro l hl
    rcases List.mem_cons.1 hl with rfl | hl
    · trivial
    · exact all_bounds hform.numbers l hl
  | string | boolean | any | undefined | enum =>
    intro l hl
    obtain rfl := List.mem_singleton.1 hl
    trivial
  | datetime =>
    intro l hl
    rcases List.mem_cons.1 hl with rfl | hl
    · trivial
    · obtain rfl := List.mem_singleton.1 hl
      trivial
  | array item =>
    intro l hl
    obtain rfl := List.mem_singleton.1 hl
    exact hsmaller item List.mem_cons_self
  | literal x =>
    intro l hl
    obtain rfl := List.mem_singleton.1 hl
    exact hform.numbers
  | reference name =>
    intro l hl
    obtain rfl := List.mem_singleton.1 hl
    exact hform.readable.reference name rfl
  | coerce inner =>
    have hinner := (legible_iff.1 (hlegible inner List.mem_cons_self)).1
    have hcoercible := hform.renders.coerce inner rfl
    obtain ⟨form, d⟩ := inner
    intro l hl
    cases form with
    | number b =>
      rcases List.mem_cons.1 hl with rfl | hl
      · trivial
      · exact all_bounds hinner.numbers l hl
    | boolean =>
      obtain rfl := List.mem_singleton.1 hl
      trivial
    | _ => cases hcoercible
  | nullable inner | optional inner =>
    intro l hl
    rcases List.mem_append.1 hl with hl | hl
    · exact (hsmaller inner List.mem_cons_self).links (hchildren inner List.mem_cons_self) l hl
    · obtain rfl := List.mem_singleton.1 hl
      trivial
  | default inner x =>
    intro l hl
    rcases List.mem_append.1 hl with hl | hl
    · exact (hsmaller inner List.mem_cons_self).links (hchildren inner List.mem_cons_self) l hl
    · obtain rfl := List.mem_singleton.1 hl
      exact hform.numbers
  | union options | discriminatedUnion _ options =>
    intro l hl
    obtain rfl := List.mem_singleton.1 hl
    exact hsmaller
  | merge parts => exact absurd rfl (hform.readable.merge parts)
  | extend base shape =>
    obtain ⟨ps, required⟩ := shape
    intro l hl
    rcases List.mem_append.1 hl with hl | hl
    · exact (hsmaller base List.mem_cons_self).links (hchildren base List.mem_cons_self) l hl
    · obtain rfl := List.mem_singleton.1 hl
      refine all_fields fun w hw => ⟨hsmaller w (List.mem_cons_of_mem _ hw),
        .optional (hlegible w (List.mem_cons_of_mem _ hw)) ?_⟩
      have hlt := sizeOf_values_lt hw
      simp only [Validator.mk.sizeOf_spec, Form.extend.sizeOf_spec, Shape.mk.sizeOf_spec]
      omega

theorem all_links (v : Validator) (hv : v.Legible N) : ∀ l ∈ v.links, l.All (Smaller N v) N := by
  induction v using induction_children with
  | h v ih =>
    obtain ⟨form, d⟩ := v
    have hform := all_linksOfForm hv fun w hw => ih w hw ((legible_iff.1 hv).2 w hw)
    intro l hl
    rw [links, List.mem_append] at hl
    rcases hl with hl | hl
    · exact hform l hl
    · obtain ⟨s, -, rfl⟩ := List.mem_map.1 hl
      trivial

end Validator

/-! ## Taking a chain apart -/

open Json (quote apart_quote quote_eq_cons)

/-- What may stand behind a chain: anything but one more call. -/
def EndsChain (x : List Char) : Prop := Ends (· == '.') x

namespace Chain

def Word.ofText? (text : String) : Option Word :=
  [object, string, number, min, max, boolean, datetime, any, undefined, array, enum, literal, lazy,
    coerceNumber, coerceBoolean, nullable, optional, default, union, discriminatedUnion, extend,
    describe].find? (·.text == text)

theorem Word.ofText?_text (w : Word) : ofText? w.text = some w := by
  cases w <;> decide

/-- No word of a call goes on as another one, since a bracket follows. -/
theorem Word.apart_text {w w' : Word} {x y : List Char}
    (h : w.text.toList ++ '(' :: x = w'.text.toList ++ '(' :: y) : w = w' ∧ x = y := by
  have hchars : ∀ w : Word, ∀ c ∈ w.text.toList, (c != '(') = true := by
    intro w
    refine List.all_eq_true.1 ?_
    cases w <;> decide
  obtain ⟨htext, hxy⟩ := append_inj_of_ends (hchars w) (hchars w') (ends_cons (by decide) x)
    (ends_cons (by decide) y) h
  have hword := congrArg ofText? (String.toList_injective htext)
  rw [ofText?_text, ofText?_text] at hword
  exact ⟨Option.some.inj hword, (List.cons.inj hxy).2⟩

section Arguments

open Validator (code norm normField fieldCode)

variable {Q R : Validator → Prop} {N : Set Number}

/-- Validators of two sorts can be taken apart, and are not empty. -/
structure Sorts (Q R : Validator → Prop) : Prop where
  apart : ∀ v w, Q v → R w → Apart EndsChain (fun v => (code v).toList) norm v w
  left : ∀ v, Q v → ∃ cs, v.code.toList = 'z' :: cs
  right : ∀ w, R w → ∃ cs, w.code.toList = 'z' :: cs

theorem endsChain_cons {c : Char} (h : c ≠ '.') (x : List Char) : EndsChain (c :: x) :=
  ends_cons (C := (· == '.')) (beq_eq_false_iff_ne.2 h) x

theorem Sorts.apart_field (hs : Sorts Q R) {f g : String × Validator} (hf : Q f.2) (hg : R g.2) :
    Apart EndsChain (fun f => (fieldCode f).toList) normField f g := by
  intro x y hx hy h
  simp only [fieldCode, String.toList_append, List.append_assoc] at h
  obtain ⟨hname, h⟩ := apart_quote f.1 g.1 _ _ trivial trivial h
  obtain ⟨hnorm, hxy⟩ := hs.apart f.2 g.2 hf hg x y hx hy (List.append_cancel_left h)
  exact ⟨Prod.ext hname hnorm, hxy⟩

theorem Sorts.apart_options (hs : Sorts Q R) {vs ws : List Validator} (hvs : AllOf Q vs)
    (hws : AllOf R ws) {x y : List Char}
    (h : (", ".intercalate (vs.map code)).toList ++ ']' :: x
      = (", ".intercalate (ws.map code)).toList ++ ']' :: y) :
    vs.map norm = ws.map norm ∧ x = y := by
  have hstart : ∀ v ∈ vs ++ ws, ∃ c cs, v.code.toList = c :: cs ∧ c ≠ ']' := by
    intro v hv
    rcases List.mem_append.1 hv with hv | hv
    · obtain ⟨cs, hcs⟩ := hs.left v (hvs v hv)
      exact ⟨'z', cs, hcs, by decide⟩
    · obtain ⟨cs, hcs⟩ := hs.right v (hws v hv)
      exact ⟨'z', cs, hcs, by decide⟩
  rw [String.toList_intercalate, String.toList_intercalate, List.map_map, List.map_map] at h
  exact intercalate_inj (by decide) (endsChain_cons (by decide)) (endsChain_cons (by decide)) hstart
    (fun v hv w hw => hs.apart v w (hvs v hv) (hws w hw)) h

theorem toList_braced (f : String × Validator) (fs : List (String × Validator)) :
    (braced ((f :: fs).map fieldCode)).toList = ['\x7b', ' ']
      ++ ([',', ' '].intercalate ((f :: fs).map fun f => (fieldCode f).toList)
        ++ [' ', '\x7d']) := by
  have hbraced : braced ((f :: fs).map fieldCode)
      = "\x7b " ++ ", ".intercalate ((f :: fs).map fieldCode) ++ " \x7d" := rfl
  rw [hbraced, String.toList_append, String.toList_append, String.toList_intercalate, List.map_map,
    List.append_assoc]
  rfl

/-- The fields of a shape can be taken apart. An empty shape is written with no blanks, so it is
told from others by its second character. -/
theorem Sorts.apart_braced (hs : Sorts Q R) {fs gs : List (String × Validator)}
    (hfs : AllOf Q (Assoc.values fs)) (hgs : AllOf R (Assoc.values gs)) {x y : List Char}
    (h : (braced (fs.map fieldCode)).toList ++ x = (braced (gs.map fieldCode)).toList ++ y) :
    fs.map normField = gs.map normField ∧ x = y := by
  have hempty : (braced []).toList = ['\x7b', '\x7d'] := by decide
  have hstart : ∀ f ∈ fs ++ gs, ∃ c cs, (fieldCode f).toList = c :: cs ∧ c ≠ ' ' := by
    intro f _
    obtain ⟨cs, hcs⟩ := quote_eq_cons f.1
    rw [fieldCode, String.toList_append, String.toList_append, hcs]
    exact ⟨'"', _, rfl, by decide⟩
  have hfields : ∀ f ∈ fs, ∀ g ∈ gs,
      Apart EndsChain (fun f => (fieldCode f).toList) normField f g := fun f hf g hg =>
    hs.apart_field (hfs f.2 (List.mem_map_of_mem hf))
      (hgs g.2 (List.mem_map_of_mem hg))
  rcases fs with _ | ⟨f, fs⟩ <;> rcases gs with _ | ⟨g, gs⟩
  · exact ⟨rfl, List.append_cancel_left h⟩
  · rw [toList_braced, List.map_nil, hempty] at h
    simp at h
  · rw [toList_braced, List.map_nil, hempty] at h
    simp at h
  · rw [toList_braced, toList_braced] at h
    simp only [List.append_assoc] at h
    obtain ⟨hnorm, hxy⟩ := intercalate_inj (by decide) (endsChain_cons (by decide))
      (endsChain_cons (by decide)) hstart hfields (List.append_cancel_left h)
    exact ⟨hnorm, (List.cons.inj hxy).2⟩

theorem apart_texts {ss ts : List String} {x y : List Char}
    (h : (", ".intercalate (ss.map quote)).toList ++ ']' :: x
      = (", ".intercalate (ts.map quote)).toList ++ ']' :: y) : ss = ts ∧ x = y := by
  have hstart : ∀ s ∈ ss ++ ts, ∃ c cs, (quote s).toList = c :: cs ∧ c ≠ ']' := by
    intro s _
    obtain ⟨cs, hcs⟩ := quote_eq_cons s
    exact ⟨'"', cs, hcs, by decide⟩
  rw [String.toList_intercalate, String.toList_intercalate, List.map_map, List.map_map] at h
  obtain ⟨hst, hxy⟩ := intercalate_inj (by decide) (fun _ => trivial) (fun _ => trivial) hstart
    (fun s _ t _ => apart_quote s t) h
  rw [List.map_id, List.map_id] at hst
  exact ⟨hst, hxy⟩

/-- A name that is referred to ends where the call around it does. -/
theorem apart_deferred {s t : String} (hs : ')' ∉ s.toList) (ht : ')' ∉ t.toList)
    {x y : List Char} (h : (deferred s).toList ++ ')' :: x = (deferred t).toList ++ ')' :: y) :
    s = t ∧ ')' :: x = ')' :: y := by
  have hchars : ∀ {s : String}, ')' ∉ s.toList → ∀ c ∈ s.toList, (c != ')') = true :=
    fun hs c hc => bne_iff_ne.2 fun he => hs (he ▸ hc)
  simp only [deferred, String.toList_append, List.append_assoc] at h
  obtain ⟨hst, hxy⟩ := append_inj_of_ends (hchars hs) (hchars ht) (ends_cons (by decide) x)
    (ends_cons (by decide) y) (List.append_cancel_left h)
  exact ⟨String.toList_injective hst, hxy⟩

def ClosesCall (x : List Char) : Prop := ∃ z, x = ')' :: z

/-- One case for each kind of argument. -/
theorem Sorts.apart_argument (hs : Sorts Q R) (hN : Set.InjOn Number.text N) :
    ∀ {k : Kind} {a b : k.Argument}, k.All Q N a → k.All R N b →
      Apart ClosesCall (fun a => (k.code a).toList) k.norm a b := by
  rintro k a b ha hb _ _ ⟨x, rfl⟩ ⟨y, rfl⟩ h
  cases k with
  | nothing => exact ⟨rfl, h⟩
  | fields => exact hs.apart_braced ha hb h
  | number =>
    exact Number.apart_text hN ha hb _ _ (ends_cons (by decide) x) (ends_cons (by decide) y) h
  | item =>
    exact hs.apart a b ha hb _ _ (endsChain_cons (by decide) x) (endsChain_cons (by decide) y) h
  | texts =>
    simp only [Kind.code, String.toList_append, List.append_assoc] at h
    exact apart_texts (List.append_cancel_left h)
  | value =>
    exact Json.compact_inj hN a b ha hb _ _ (ends_cons (by decide) x) (ends_cons (by decide) y) h
  | name => exact apart_deferred ha hb h
  | options =>
    simp only [Kind.code, String.toList_append, List.append_assoc] at h
    exact hs.apart_options ha hb (List.append_cancel_left h)
  | tagged =>
    obtain ⟨d, vs⟩ := a
    obtain ⟨e, ws⟩ := b
    simp only [Kind.code, String.toList_append, List.append_assoc] at h
    obtain ⟨hde, h⟩ := apart_quote d e _ _ trivial trivial h
    obtain ⟨hnorm, hxy⟩ := hs.apart_options ha hb (List.append_cancel_left h)
    exact ⟨Prod.ext hde hnorm, hxy⟩
  | text => exact apart_quote a b _ _ trivial trivial h

/-- Calls can be taken apart: by their words first, and then by their arguments. -/
theorem Sorts.apart_link (hs : Sorts Q R) (hN : Set.InjOn Number.text N) {l l' : Link}
    (hl : l.All Q N) (hl' : l'.All R N) : Apart (fun _ => True) Link.chars Link.norm l l' := by
  intro x y _ _ h
  obtain ⟨word, a⟩ := l
  obtain ⟨word', b⟩ := l'
  simp only [Link.chars, List.cons_append, List.append_assoc, List.cons.injEq, true_and] at h
  obtain ⟨rfl, h⟩ := Word.apart_text h
  obtain ⟨hnorm, hxy⟩ := hs.apart_argument hN hl hl' _ _ ⟨x, rfl⟩ ⟨y, rfl⟩ h
  exact ⟨congrArg (Link.mk word) hnorm, (List.cons.inj hxy).2⟩

end Arguments

end Chain

namespace Validator

variable {N : Set Number}

/-- Legible validators can be taken apart in front of anything that does not go on with a call. -/
theorem apart_code (hN : Set.InjOn Number.text N) (v : Validator) (hv : v.Legible N) :
    ∀ w : Validator, w.Legible N → Apart EndsChain (fun v => (code v).toList) norm v w := by
  intro w hw x y hx hy h
  have hreplays : ∀ {u : Validator}, u.Legible N →
      ∀ start, (u.links.map Link.norm).foldl grow start = u.norm := fun hu =>
    foldl_grow_links _ fun node hnode => ⟨(hu node hnode).readable, (hu node hnode).renders⟩
  -- what is in the calls of `v` is smaller than `v`, so it can be taken apart already
  have hsorts : Chain.Sorts (Smaller N v) (Legible N) :=
    ⟨fun u u' hu hu' => apart_code hN u hu.1 u' hu', fun u hu => ⟨_, hu.1.toList_code⟩,
      fun u hu => ⟨_, hu.toList_code⟩⟩
  have hdot : ∀ {z : List Char}, EndsChain z → z.head? ≠ some '.' := by
    intro z hz he
    simpa using hz '.' he
  dsimp only at h
  rw [hv.toList_code, hw.toList_code] at h
  obtain ⟨hlinks, hxy⟩ := flatMap_inj (fun l => ⟨_, rfl⟩) (fun _ => trivial) trivial trivial
    (hdot hx) (hdot hy)
    (fun l hl l' hl' => hsorts.apart_link hN (all_links v hv l hl)
      ((all_links w hw l' hl').imp fun _ hu => hu.1)) (List.cons.inj h).2
  refine ⟨?_, hxy⟩
  rw [← hreplays hv v, hlinks, hreplays hw]
termination_by sizeOf v
decreasing_by exact hu.2

/-- The numbers in a validator. -/
def numbers (v : Validator) : List Number := v.nodes.flatMap Form.numbers

theorem legible_of_render {v : Validator} {s : String} (hv : ∀ node ∈ v.nodes, node.Readable)
    (h : v.render = .ok s) (hnumbers : ∀ n ∈ v.numbers, n ∈ N) : v.Legible N := by
  have hrenders := (exists_render_iff v).1 ⟨s, h⟩
  intro node hnode
  exact ⟨hv node hnode, hrenders node hnode,
    fun n hn => hnumbers n (List.mem_flatMap.2 ⟨node, hnode, hn⟩)⟩

/-- Two validators are rendered as one text exactly when they have one normal form, if only their
numbers have texts of their own. -/
theorem render_eq_iff_norm_eq {a b : Validator} {text : String}
    (ha : ∀ node ∈ a.nodes, node.Readable) (hb : ∀ node ∈ b.nodes, node.Readable)
    (hnumbers : Set.InjOn Number.text {n | n ∈ a.numbers ∨ n ∈ b.numbers})
    (h : a.render = .ok text) : b.render = .ok text ↔ a.norm = b.norm := by
  constructor
  · intro h'
    have hcode : a.code.toList ++ [] = b.code.toList ++ [] := by
      rw [code_of_render h, code_of_render h']
    have hnil : EndsChain [] := fun c hc => by cases hc
    exact (apart_code hnumbers a (legible_of_render ha h fun _ => .inl) b
      (legible_of_render hb h' fun _ => .inr) [] [] hnil hnil hcode).1
  · intro hnorm
    rw [← render_norm b, ← hnorm, render_norm a, h]

section Pen

def penLength : Validator := ⟨.number ⟨some (.int 1), some (.int 12)⟩, some "in cm"⟩

/-- A property that may be missing, and a required name without a property. -/
def pen : Validator := object ⟨[("length", penLength)], ["color"]⟩

/-- The property is required, but optional. -/
def filledPen : Validator := object ⟨[("length", penLength.optional)], ["length"]⟩

theorem readable_pen : (∀ node ∈ pen.nodes, node.Readable)
    ∧ ∀ node ∈ filledPen.nodes, node.Readable := by
  constructor
  · intro node hnode
    simp [pen, penLength, object, plain, nodes, nodesOfForm, nodesOfMembers] at hnode
    rcases hnode with rfl | rfl <;> exact ⟨by simp, by simp, by simp, by simp⟩
  · intro node hnode
    simp [filledPen, penLength, object, Validator.optional, plain, nodes, nodesOfForm,
      nodesOfMembers] at hnode
    rcases hnode with rfl | rfl | rfl <;> exact ⟨by simp, by simp, by simp, by simp⟩

end Pen

theorem render_eq_iff_norm_eq_pen : pen ≠ filledPen ∧ ∃ text, pen.render = .ok text
    ∧ filledPen.render = .ok text ∧ pen.norm = filledPen.norm := by
  have hnumbers : Set.InjOn Number.text {n | n ∈ pen.numbers ∨ n ∈ filledPen.numbers} := by
    have hall : ∀ m ∈ pen.numbers ++ filledPen.numbers, ∀ n ∈ pen.numbers ++ filledPen.numbers,
        m.text = n.text → m = n := by decide
    exact fun m hm n hn => hall m (List.mem_append.2 hm) n (List.mem_append.2 hn)
  obtain ⟨text, htext⟩ : ∃ text, pen.render = .ok text := ⟨_, rfl⟩
  have hfilled : filledPen.render = .ok text := by
    rw [← htext]
    decide +kernel
  have hnorm := (render_eq_iff_norm_eq readable_pen.1 readable_pen.2 hnumbers htext).1 hfilled
  exact ⟨by simp [pen, filledPen, object, plain], text, htext, hfilled, hnorm⟩

end Validator

end ZodGen
