import ZodGen.Proofs.Rendering

/-!
# Validators as chains of calls

A validator is rendered as `z` with a chain of calls behind it, the calls of the validator inside
first. `Validator.links` lists the calls, each a word with an argument of the kind that the word
takes, and what is rendered is the text of the chain (`toList_code`), when no node is a merge or a
union of one.
-/

namespace ZodGen

open Json (quote)

/-! ## Calls -/

namespace Chain

/-- The kinds of what stands between the parentheses of a call. -/
inductive Kind where
  | nothing
  | fields
  | number
  | item
  | texts
  | value
  | name
  | options
  | tagged
  | text
  deriving DecidableEq, Repr

def Kind.Argument : Kind → Type
  | .nothing => Unit
  | .fields => List (String × Validator)
  | .number => Number
  | .item => Validator
  | .texts => List String
  | .value => Value
  | .name => String
  | .options => List Validator
  | .tagged => String × List Validator
  | .text => String

inductive Word where
  | object
  | string
  | number
  | min
  | max
  | boolean
  | datetime
  | any
  | undefined
  | array
  | enum
  | literal
  | lazy
  | coerceNumber
  | coerceBoolean
  | nullable
  | optional
  | default
  | union
  | discriminatedUnion
  | extend
  | describe
  deriving DecidableEq, Repr

@[simp]
def Word.text : Word → String
  | .object => "object"
  | .string => "string"
  | .number => "number"
  | .min => "min"
  | .max => "max"
  | .boolean => "boolean"
  | .datetime => "datetime"
  | .any => "any"
  | .undefined => "undefined"
  | .array => "array"
  | .enum => "enum"
  | .literal => "literal"
  | .lazy => "lazy"
  | .coerceNumber => "coerce.number"
  | .coerceBoolean => "coerce.boolean"
  | .nullable => "nullable"
  | .optional => "optional"
  | .default => "default"
  | .union => "union"
  | .discriminatedUnion => "discriminatedUnion"
  | .extend => "extend"
  | .describe => "describe"

/-- The kind of argument that a word takes. -/
@[simp]
def Word.kind : Word → Kind
  | .object | .extend => .fields
  | .min | .max => .number
  | .array => .item
  | .enum => .texts
  | .literal | .default => .value
  | .lazy => .name
  | .union => .options
  | .discriminatedUnion => .tagged
  | .describe => .text
  | _ => .nothing

/-- A call: a word with an argument of its kind. -/
structure Link where
  word : Word
  argument : word.kind.Argument

end Chain

open Chain (Kind Link)

/-- What is rendered for a validator, if it is rendered. -/
def Validator.code (v : Validator) : String :=
  match v.render with
  | .ok code => code
  | .error _ => ""

def Validator.fieldCode (f : String × Validator) : String := quote f.1 ++ ": " ++ f.2.code

namespace Chain

def deferred (name : String) : String := "() => " ++ name

@[simp]
def Kind.code : (k : Kind) → k.Argument → String
  | .nothing, _ => ""
  | .fields, fs => braced (List.map Validator.fieldCode fs)
  | .number, n => Number.text n
  | .item, v => Validator.code v
  | .texts, ts => "[" ++ ", ".intercalate (List.map quote ts) ++ "]"
  | .value, x => Json.compact x
  | .name, s => deferred s
  | .options, vs => "[" ++ ", ".intercalate (List.map Validator.code vs) ++ "]"
  | .tagged, (d, vs) => quote d ++ ", [" ++ ", ".intercalate (List.map Validator.code vs) ++ "]"
  | .text, s => quote s

@[simp]
def Link.chars (l : Link) : List Char :=
  '.' :: (l.word.text.toList ++ '(' :: ((l.word.kind.code l.argument).toList ++ [')']))

end Chain

/-! ## The chain of a validator -/

def Bounds.links (b : Bounds) : List Link :=
  b.min.toList.map (fun n => ⟨.min, n⟩) ++ b.max.toList.map (fun n => ⟨.max, n⟩)

def Form.coercedLinks {α : Type} : Form α → List Link
  | .number b => ⟨.coerceNumber, ()⟩ :: b.links
  | .boolean => [⟨.coerceBoolean, ()⟩]
  | _ => []

namespace Validator

/-- The properties of a shape, with those that are not required made optional. -/
def fields (required : List String) (ps : List (String × Validator)) : List (String × Validator) :=
  ps.map fun p => (p.1, if required.contains p.1 then p.2 else p.2.optional)

mutual

/-- The calls that a validator is rendered with. -/
def links : Validator → List Link
  | ⟨form, description⟩ => linksOfForm form ++ description.toList.map fun d => ⟨.describe, d⟩

def linksOfForm : Form Validator → List Link
  | .object ⟨ps, required⟩ => [⟨.object, fields required ps⟩]
  | .string => [⟨.string, ()⟩]
  | .number b => ⟨.number, ()⟩ :: b.links
  | .boolean => [⟨.boolean, ()⟩]
  | .datetime => [⟨.string, ()⟩, ⟨.datetime, ()⟩]
  | .any => [⟨.any, ()⟩]
  | .undefined => [⟨.undefined, ()⟩]
  | .array item => [⟨.array, item⟩]
  | .enum values => [⟨.enum, values⟩]
  | .literal v => [⟨.literal, v⟩]
  | .reference name => [⟨.lazy, name⟩]
  | .coerce inner => inner.form.coercedLinks
  | .nullable inner => inner.links ++ [⟨.nullable, ()⟩]
  | .optional inner => inner.links ++ [⟨.optional, ()⟩]
  | .default inner v => inner.links ++ [⟨.default, v⟩]
  | .union options => [⟨.union, options⟩]
  | .discriminatedUnion d options => [⟨.discriminatedUnion, (d, options)⟩]
  | .merge _ => []
  | .extend base ⟨ps, required⟩ => base.links ++ [⟨.extend, fields required ps⟩]

end

/-! ## The text of a chain -/

section Code

theorem code_of_render {v : Validator} {s : String} (h : v.render = .ok s) : v.code = s := by
  rw [code, h]

theorem render_optional (v : Validator) :
    v.optional.render = (do .ok ((← v.render) ++ ".optional()") : Outcome String) := by
  rw [optional, plain, render, renderForm]
  rcases v.render with e | s <;> rfl

theorem renderAll_eq : ∀ {vs : List Validator} {xs : List String},
    renderAll vs = .ok xs → xs = vs.map code
  | [], xs, h => by
    rw [renderAll] at h
    cases h
    rfl
  | v :: vs, xs, h => by
    rw [renderAll] at h
    obtain ⟨s, hs, h⟩ := Outcome.bind_eq_ok.1 h
    obtain ⟨ss, hss, h⟩ := Outcome.bind_eq_ok.1 h
    cases h
    rw [List.map_cons, code_of_render hs, renderAll_eq hss]

/-- Properties are rendered as fields, with those that are not required made optional. -/
theorem renderFields_eq {required : List String} : ∀ {ps : List (String × Validator)}
    {xs : List String}, renderFields required ps = .ok xs → xs = (fields required ps).map fieldCode
  | [], xs, h => by
    rw [renderFields] at h
    cases h
    rfl
  | (name, v) :: ps, xs, h => by
    rw [renderFields] at h
    obtain ⟨s, hs, h⟩ := Outcome.bind_eq_ok.1 h
    obtain ⟨ss, hss, h⟩ := Outcome.bind_eq_ok.1 h
    cases h
    have hfield : fieldCode (name, if required.contains name then v else v.optional)
        = quote name ++ ": " ++ s ++ (if required.contains name then "" else ".optional()") := by
      split
      · rw [fieldCode, code_of_render hs, String.append_empty]
      · have hoptional : v.optional.code = s ++ ".optional()" := by
          rw [code, render_optional, hs]
          rfl
        rw [fieldCode, hoptional, String.append_assoc, String.append_assoc, String.append_assoc]
    rw [fields, List.map_cons, List.map_cons, hfield, renderFields_eq hss]
    rfl

end Code

end Validator

/-- A node that can be told from others by what is rendered for it. -/
structure Form.Readable (form : Form Validator) : Prop where
  union : ∀ single, form ≠ .union [single]
  merge : ∀ parts, form ≠ .merge parts
  coerce : ∀ inner, form = .coerce inner → inner.description = none
  reference : ∀ name, form = .reference name → ')' ∉ name.toList

namespace Validator

theorem toList_bounds (b : Bounds) (base : String) :
    (b.render base).toList = base.toList ++ b.links.flatMap Link.chars := by
  obtain ⟨_ | m, _ | n⟩ := b <;>
    simp [Bounds.render, Bounds.links]

/-- One case for each form: its own call stands behind the calls of what it wraps. -/
theorem toList_renderForm {form : Form Validator} (hform : form.Readable)
    (hchildren : ∀ w ∈ form.children, ∀ t, w.render = .ok t →
      t.toList = 'z' :: w.links.flatMap Link.chars) {s : String} (h : renderForm form = .ok s) :
    s.toList = 'z' :: (linksOfForm form).flatMap Link.chars := by
  cases form with
  | object shape =>
    obtain ⟨ps, required⟩ := shape
    rw [renderForm] at h
    obtain ⟨xs, hxs, h⟩ := Outcome.bind_eq_ok.1 h
    cases h
    rw [renderFields_eq hxs, linksOfForm]
    simp
  | string | boolean | datetime | any | undefined =>
    rw [renderForm] at h
    cases h
    simp [linksOfForm]
  | number b =>
    rw [renderForm] at h
    cases h
    rw [toList_bounds, linksOfForm]
    simp
  | array item =>
    rw [renderForm] at h
    obtain ⟨t, ht, h⟩ := Outcome.bind_eq_ok.1 h
    cases h
    rw [linksOfForm, ← code_of_render ht]
    simp
  | enum values =>
    rw [renderForm] at h
    cases h
    simp [linksOfForm]
  | literal v =>
    rw [renderForm] at h
    cases h
    simp [linksOfForm]
  | reference name =>
    rw [renderForm] at h
    cases h
    simp [linksOfForm, Chain.deferred]
  | coerce inner =>
    obtain ⟨form, d⟩ := inner
    rw [renderForm] at h
    cases form with
    | number b =>
      cases h
      rw [toList_bounds, linksOfForm, Form.coercedLinks]
      simp
    | boolean =>
      cases h
      simp [linksOfForm, Form.coercedLinks]
    | _ => simp [Form.renderCoerced, fail] at h
  | nullable inner | optional inner =>
    rw [renderForm] at h
    obtain ⟨t, ht, h⟩ := Outcome.bind_eq_ok.1 h
    cases h
    rw [String.toList_append, hchildren inner List.mem_cons_self t ht, linksOfForm]
    simp
  | default inner v =>
    rw [renderForm] at h
    obtain ⟨t, ht, h⟩ := Outcome.bind_eq_ok.1 h
    cases h
    rw [String.append_assoc, String.append_assoc, String.toList_append,
      hchildren inner List.mem_cons_self t ht, linksOfForm]
    simp
  | union options =>
    rcases options with _ | ⟨v, _ | ⟨w, vs⟩⟩
    · simp [renderForm, fail] at h
    · exact absurd rfl (hform.union v)
    · rw [renderForm_union] at h
      obtain ⟨xs, hxs, h⟩ := Outcome.bind_eq_ok.1 h
      cases h
      rw [renderAll_eq hxs, linksOfForm]
      simp
  | discriminatedUnion d options =>
    rw [renderForm] at h
    obtain ⟨xs, hxs, h⟩ := Outcome.bind_eq_ok.1 h
    cases h
    rw [renderAll_eq hxs, linksOfForm]
    simp
  | merge parts => exact absurd rfl (hform.merge parts)
  | extend base shape =>
    obtain ⟨ps, required⟩ := shape
    rw [renderForm] at h
    obtain ⟨t, ht, h⟩ := Outcome.bind_eq_ok.1 h
    obtain ⟨xs, hxs, h⟩ := Outcome.bind_eq_ok.1 h
    cases h
    rw [renderFields_eq hxs, String.append_assoc, String.append_assoc, String.toList_append,
      hchildren base List.mem_cons_self t ht, linksOfForm]
    simp

/-- What is rendered for a validator is `z` and its calls. -/
theorem toList_of_render (v : Validator) (hv : ∀ node ∈ v.nodes, node.Readable) : ∀ {s : String},
    v.render = .ok s → s.toList = 'z' :: v.links.flatMap Link.chars := by
  induction v using induction_children with
  | h v ih =>
    intro s h
    obtain ⟨form, d⟩ := v
    rw [nodes_eq] at hv
    simp only [mem_nodesOfForm] at hv
    rw [render] at h
    obtain ⟨t, ht, h⟩ := Outcome.bind_eq_ok.1 h
    cases h
    have hform := toList_renderForm (hv form (.inl rfl))
      (fun w hw t ht => ih w hw (fun node hnode => hv node (.inr ⟨w, hw, hnode⟩)) ht) ht
    rw [links]
    cases d with
    | none => simpa [described] using hform
    | some d =>
      rw [described, String.append_assoc, String.append_assoc, String.toList_append, hform]
      simp

end Validator

end ZodGen
