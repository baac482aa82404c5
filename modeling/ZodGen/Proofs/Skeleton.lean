import ZodGen.Proofs.JsonText
import ZodGen.Proofs.ReferenceNames
import ZodGen.Proofs.Rendering

/-!
# The structure of a rendered validator

The skeleton of a text is what is left when every quoted text in it is made empty. Whatever texts a
validator has are written quoted, so when they are replaced, the skeleton of what is rendered stays
as it is (`skeleton_render_rename`). Only the names of references stand unquoted: a name that opens
a quoted text makes code of the texts behind it (`skeleton_render_rename_openQuote`).
-/

namespace ZodGen

/-! ## Quoted texts in a text -/

namespace Skeleton

/-- Where a character stands: outside of quoted texts, in one, or behind a backslash in one. -/
inductive Mode where
  | outside
  | inside
  | escaped
  deriving DecidableEq, Repr

def Mode.next : Mode → Char → Mode
  | .outside, c => if c = '"' then .inside else .outside
  | .inside, c => if c = '"' then .outside else if c = '\\' then .escaped else .inside
  | .escaped, _ => .inside

/-- What is kept of a character: all outside of quoted texts, and the quotes around them. -/
def Mode.kept : Mode → Char → List Char
  | .outside, c => [c]
  | .inside, c => if c = '"' then [c] else []
  | .escaped, _ => []

def after (mode : Mode) (cs : List Char) : Mode := cs.foldl Mode.next mode

def keptChars : Mode → List Char → List Char
  | _, [] => []
  | mode, c :: cs => mode.kept c ++ keptChars (mode.next c) cs

theorem after_append (mode : Mode) (a b : List Char) :
    after mode (a ++ b) = after (after mode a) b :=
  List.foldl_append

/-- What is kept of a text depends on what stands in front of it by the mode only. -/
theorem keptChars_append : ∀ (mode : Mode) (a b : List Char),
    keptChars mode (a ++ b) = keptChars mode a ++ keptChars (after mode a) b
  | _, [], _ => rfl
  | mode, c :: a, b => by
    rw [List.cons_append, keptChars, keptChars, keptChars_append, List.append_assoc]
    rfl

end Skeleton

open Skeleton (Mode after keptChars after_append keptChars_append)

/-- A text with every quoted text in it made empty. -/
def skeleton (text : String) : String := String.ofList (keptChars .outside text.toList)

/-- A text that closes every quoted text that it opens. -/
def Closed (text : String) : Prop := after .outside text.toList = .outside

instance (text : String) : Decidable (Closed text) :=
  inferInstanceAs (Decidable (_ = _))

/-- Two closed texts with one skeleton. -/
structure Alike (s t : String) : Prop where
  left : Closed s
  right : Closed t
  skeleton : skeleton s = skeleton t

section Alike

variable {s t s' t' : String}

theorem skeleton_append (hs : Closed s) (t : String) :
    skeleton (s ++ t) = skeleton s ++ skeleton t := by
  have hs' : after .outside s.toList = .outside := hs
  rw [skeleton, String.toList_append, keptChars_append, hs', String.ofList_append]
  rfl

theorem Closed.append (hs : Closed s) (ht : Closed t) : Closed (s ++ t) := by
  unfold Closed at *
  rw [String.toList_append, after_append, hs, ht]

theorem closed_of_notMem (h : '"' ∉ s.toList) : Closed s := by
  have hall : ∀ cs : List Char, '"' ∉ cs → after .outside cs = .outside := by
    intro cs hcs
    induction cs with
    | nil => rfl
    | cons c cs ih =>
      simp only [List.mem_cons, not_or] at hcs
      have hnext : Mode.next .outside c = .outside := if_neg (Ne.symm hcs.1)
      rw [after, List.foldl_cons, hnext]
      exact ih hcs.2
  exact hall _ h

theorem Closed.alike (h : Closed s) : Alike s s := ⟨h, h, rfl⟩

theorem Alike.append (h : Alike s t) (h' : Alike s' t') : Alike (s ++ s') (t ++ t') where
  left := h.left.append h'.left
  right := h.right.append h'.right
  skeleton := by
    rw [skeleton_append h.left, skeleton_append h.right, h.skeleton, h'.skeleton]

theorem Alike.intercalate {sep : String} (hsep : Closed sep) : ∀ {xs ys : List String},
    List.Forall₂ Alike xs ys → Alike (sep.intercalate xs) (sep.intercalate ys)
  | [], [], .nil => by
    rw [String.intercalate_nil]
    exact Closed.alike (by decide)
  | [x], [y], .cons h .nil => by simpa using h
  | x :: x' :: xs, y :: y' :: ys, .cons h hs => by
    rw [String.intercalate_cons_cons, String.intercalate_cons_cons]
    exact (h.append hsep.alike).append (Alike.intercalate hsep hs)

end Alike

/-! ## Quoting -/

section Quote

open Json

theorem next_hexDigit (n : Nat) :
    Mode.next .inside (hexDigit n) = .inside ∧ Mode.kept .inside (hexDigit n) = [] := by
  have hall : ∀ k < 16, Mode.next .inside ((Nat.toDigits 16 k).headD '0') = .inside
      ∧ Mode.kept .inside ((Nat.toDigits 16 k).headD '0') = [] := by decide
  exact hall (n % 16) (Nat.mod_lt n (by omega))

/-- What is written for a character of a quoted text does not leave the quoted text. -/
theorem after_escape (c : Char) :
    after .inside (escape c) = .inside ∧ keptChars .inside (escape c) = [] := by
  unfold escape
  split
  case h_8 hquote hbackslash _ _ _ _ _ =>
    split
    · have hstart : after .inside ['\\', 'u', '0', '0'] = .inside
          ∧ keptChars .inside ['\\', 'u', '0', '0'] = [] := by decide
      obtain ⟨hnext, hkept⟩ := next_hexDigit (c.toNat / 16)
      obtain ⟨hnext', hkept'⟩ := next_hexDigit c.toNat
      change after .inside (['\\', 'u', '0', '0'] ++ [_, _]) = _
        ∧ keptChars .inside (['\\', 'u', '0', '0'] ++ [_, _]) = _
      rw [after_append, keptChars_append, hstart.1, hstart.2]
      simp [after, keptChars, hnext, hkept, hnext', hkept']
    · have hq : c ≠ '"' := hquote
      have hb : c ≠ '\\' := hbackslash
      simp [after, keptChars, Mode.next, Mode.kept, hq, hb]
  all_goals decide

theorem after_flatMap_escape (cs : List Char) :
    after .inside (cs.flatMap escape) = .inside ∧ keptChars .inside (cs.flatMap escape) = [] := by
  induction cs with
  | nil => exact ⟨rfl, rfl⟩
  | cons c cs ih =>
    obtain ⟨hafter, hkept⟩ := after_escape c
    rw [List.flatMap_cons, after_append, keptChars_append, hafter, hkept, ih.1, ih.2]
    exact ⟨rfl, rfl⟩

/-- A quoted text is closed, and nothing is left in its quotes. -/
theorem skeleton_quote (s : String) : Closed (quote s) ∧ skeleton (quote s) = "\"\"" := by
  obtain ⟨hafter, hkept⟩ := after_flatMap_escape s.toList
  have hopen : after .outside ['"'] = .inside ∧ keptChars .outside ['"'] = ['"'] := by decide
  have hclose : after .inside ['"'] = .outside ∧ keptChars .inside ['"'] = ['"'] := by decide
  have hchars : (quote s).toList = ['"'] ++ s.toList.flatMap escape ++ ['"'] :=
    String.toList_ofList
  rw [Closed, skeleton, hchars, after_append, after_append, keptChars_append, keptChars_append,
    after_append, hopen.1, hopen.2, hafter, hkept, hclose.1, hclose.2]
  exact ⟨rfl, rfl⟩

theorem alike_quote (s t : String) : Alike (quote s) (quote t) :=
  ⟨(skeleton_quote s).1, (skeleton_quote t).1,
    (skeleton_quote s).2.trans (skeleton_quote t).2.symm⟩

theorem alike_number (n : Number) : Alike n.text n.text := by
  refine Closed.alike (closed_of_notMem fun h => ?_)
  have hchar := Number.isNumberChar_of_mem h
  revert hchar
  decide

end Quote

/-! ## Other texts in their place -/

mutual

/-- A value with its texts and keys replaced. -/
def Value.rename (σ : String → String) : Value → Value
  | .str s => .str (σ s)
  | .arr items => .arr (renameItems σ items)
  | .obj ms => .obj (renameMembers σ ms)
  | v => v

def Value.renameItems (σ : String → String) : List Value → List Value
  | [] => []
  | v :: vs => v.rename σ :: renameItems σ vs

def Value.renameMembers (σ : String → String) : List (String × Value) → List (String × Value)
  | [] => []
  | (key, v) :: ms => (σ key, v.rename σ) :: renameMembers σ ms

end

namespace Validator

mutual

/-- A validator with all its texts replaced, but for the names that it refers to. -/
def rename (σ : String → String) : Validator → Validator
  | ⟨form, description⟩ => ⟨renameForm σ form, description.map σ⟩

def renameForm (σ : String → String) : Form Validator → Form Validator
  | .object ⟨ps, required⟩ => .object ⟨renameFields σ ps, required.map σ⟩
  | .array item => .array (item.rename σ)
  | .enum values => .enum (values.map σ)
  | .literal v => .literal (v.rename σ)
  | .coerce inner => .coerce (inner.rename σ)
  | .nullable inner => .nullable (inner.rename σ)
  | .optional inner => .optional (inner.rename σ)
  | .default inner v => .default (inner.rename σ) (v.rename σ)
  | .union options => .union (renameAll σ options)
  | .discriminatedUnion d options => .discriminatedUnion (σ d) (renameAll σ options)
  | .merge parts => .merge (renameAll σ parts)
  | .extend base ⟨ps, required⟩ => .extend (base.rename σ) ⟨renameFields σ ps, required.map σ⟩
  | form => form

def renameAll (σ : String → String) : List Validator → List Validator
  | [] => []
  | v :: vs => v.rename σ :: renameAll σ vs

def renameFields (σ : String → String) : List (String × Validator) → List (String × Validator)
  | [] => []
  | (name, v) :: ps => (σ name, v.rename σ) :: renameFields σ ps

end

end Validator

section Compact

open Json

variable {σ : String → String}

theorem alike_compactItems : ∀ {vs : List Value},
    (∀ v ∈ vs, Alike (compact v) (compact (v.rename σ))) →
      List.Forall₂ Alike (compactItems vs) (compactItems (Value.renameItems σ vs))
  | [], _ => .nil
  | v :: vs, h => by
    rw [Value.renameItems, compactItems, compactItems]
    exact .cons (h v List.mem_cons_self)
      (alike_compactItems fun w hw => h w (List.mem_cons_of_mem _ hw))

theorem alike_compactMembers : ∀ {ms : List (String × Value)},
    (∀ m ∈ ms, Alike (compact m.2) (compact (m.2.rename σ))) →
      List.Forall₂ Alike (compactMembers ms) (compactMembers (Value.renameMembers σ ms))
  | [], _ => .nil
  | (key, v) :: ms, h => by
    rw [Value.renameMembers, compactMembers, compactMembers]
    have hkey := (alike_quote key (σ key)).append (Closed.alike (s := ":") (by decide))
    exact .cons (hkey.append (h _ List.mem_cons_self))
      (alike_compactMembers fun m hm => h m (List.mem_cons_of_mem _ hm))

theorem alike_compact (σ : String → String) (v : Value) :
    Alike (compact v) (compact (v.rename σ)) := by
  induction v using Value.induction_inside with
  | arr vs ih =>
    rw [Value.rename, compact, compact]
    have hitems := Alike.intercalate (show Closed "," by decide) (alike_compactItems ih)
    exact ((Closed.alike (by decide)).append hitems).append (Closed.alike (by decide))
  | obj ms ih =>
    rw [Value.rename, compact, compact]
    have hmembers := Alike.intercalate (show Closed "," by decide) (alike_compactMembers ih)
    exact ((Closed.alike (by decide)).append hmembers).append (Closed.alike (by decide))
  | other v harr hobj =>
    cases v with
    | str s => exact alike_quote s (σ s)
    | num n => exact alike_number n
    | bool b => cases b <;> exact Closed.alike (by decide)
    | null => exact Closed.alike (by decide)
    | arr vs => simp [Value.asArr?] at harr
    | obj ms => simp [Value.asObj?] at hobj

end Compact

/-! ## Two runs -/

/-- Both give a result and the results are related, or both fail in one way. -/
inductive Outcome.Both {α β : Type} (R : α → β → Prop) : Outcome α → Outcome β → Prop
  | ok {a : α} {b : β} (h : R a b) : Both R (.ok a) (.ok b)
  | error (e : Error) : Both R (.error e) (.error e)

section Both

variable {α β γ δ : Type} {R : α → β → Prop} {S : γ → δ → Prop} {x : Outcome α} {y : Outcome β}

theorem Outcome.Both.bind (h : Both R x y) {f : α → Outcome γ} {g : β → Outcome δ}
    (hf : ∀ a b, R a b → Both S (f a) (g b)) : Both S (x >>= f) (y >>= g) := by
  cases h with
  | ok h => exact hf _ _ h
  | error e => exact .error e

theorem Outcome.Both.map (h : Both R x y) {f : α → γ} {g : β → δ}
    (hf : ∀ a b, R a b → S (f a) (g b)) :
    Both S (do .ok (f (← x)) : Outcome γ) (do .ok (g (← y)) : Outcome δ) :=
  h.bind fun a b hab => .ok (hf a b hab)

end Both

/-- The names in the shape of a form. -/
def Form.names {α : Type} : Form α → List String
  | .object s => Assoc.keys s.properties ++ s.required
  | .extend _ s => Assoc.keys s.properties ++ s.required
  | _ => []

namespace Validator

open Json (quote)

variable {σ : String → String}

/-- Both texts of a validator, before and after its texts are replaced, are alike. -/
def RendersAlike (σ : String → String) (v : Validator) : Prop :=
  Outcome.Both Alike v.render (v.rename σ).render

theorem alike_renderAll : ∀ {vs : List Validator}, (∀ v ∈ vs, v.RendersAlike σ) →
    Outcome.Both (List.Forall₂ Alike) (renderAll vs) (renderAll (renameAll σ vs))
  | [], _ => by
    rw [renameAll, renderAll]
    exact .ok .nil
  | v :: vs, h => by
    rw [renameAll, renderAll, renderAll]
    refine (h v List.mem_cons_self).bind fun code code' hcode => ?_
    exact (alike_renderAll fun w hw => h w (List.mem_cons_of_mem _ hw)).map
      fun codes codes' hcodes => .cons hcode hcodes

/-- Properties are rendered alike when the same of them are required. -/
theorem alike_renderFields {required : List String} : ∀ {ps : List (String × Validator)},
    (∀ name ∈ Assoc.keys ps, (required.map σ).contains (σ name) = required.contains name) →
      (∀ v ∈ Assoc.values ps, v.RendersAlike σ) →
        Outcome.Both (List.Forall₂ Alike) (renderFields required ps)
          (renderFields (required.map σ) (renameFields σ ps))
  | [], _, _ => by
    rw [renameFields, renderFields, renderFields]
    exact .ok .nil
  | (name, v) :: ps, hrequired, h => by
    rw [renameFields, renderFields, renderFields, hrequired name List.mem_cons_self]
    refine (h v List.mem_cons_self).bind fun code code' hcode => ?_
    refine (alike_renderFields (fun n hn => hrequired n (List.mem_cons_of_mem _ hn))
      fun w hw => h w (List.mem_cons_of_mem _ hw)).map fun codes codes' hcodes => .cons ?_ hcodes
    have hname := (alike_quote name (σ name)).append (Closed.alike (s := ": ") (by decide))
    refine (hname.append hcode).append (Closed.alike ?_)
    split <;> decide

theorem alike_bounds (b : Bounds) {base : String} (h : Closed base) :
    Alike (b.render base) (b.render base) := by
  have hbound : ∀ (n : Number) {front : String}, Closed front → Closed (front ++ n.text ++ ")") :=
    fun n _ hfront => (hfront.append (alike_number n).left).append (by decide)
  refine Closed.alike ((h.append ?_).append ?_)
  · rcases b.min with _ | n
    · decide
    · exact hbound n (by decide)
  · rcases b.max with _ | n
    · decide
    · exact hbound n (by decide)

theorem alike_braced {xs ys : List String} (h : List.Forall₂ Alike xs ys) :
    Alike (braced xs) (braced ys) := by
  cases h with
  | nil => exact Closed.alike (by decide)
  | cons h hs =>
    have hfields := Alike.intercalate (show Closed ", " by decide) (.cons h hs)
    exact ((Closed.alike (by decide)).append hfields).append (Closed.alike (by decide))

theorem alike_enum (σ : String → String) : ∀ values : List String,
    List.Forall₂ Alike (values.map quote) ((values.map σ).map quote)
  | [] => .nil
  | s :: values => .cons (alike_quote s (σ s)) (alike_enum σ values)

/-- Merging is written from the first part on, one call for each further part. -/
theorem alike_merge : ∀ {parts parts' : List String} {head head' : String}, Alike head head' →
    List.Forall₂ Alike parts parts' →
      Alike (parts.foldl (fun code part => code ++ ".merge(" ++ part ++ ")") head)
        (parts'.foldl (fun code part => code ++ ".merge(" ++ part ++ ")") head')
  | [], [], _, _, hhead, .nil => hhead
  | part :: parts, part' :: parts', head, head', hhead, .cons hpart hparts => by
    have hmerged : Alike (head ++ ".merge(" ++ part ++ ")") (head' ++ ".merge(" ++ part' ++ ")") :=
      ((hhead.append (Closed.alike (by decide))).append hpart).append (Closed.alike (by decide))
    rw [List.foldl_cons, List.foldl_cons]
    exact alike_merge hmerged hparts

theorem alike_renderCoerced (form : Form Validator) :
    Outcome.Both Alike form.renderCoerced (renameForm σ form).renderCoerced := by
  cases form with
  | number b => exact .ok (alike_bounds b (by decide))
  | boolean => exact .ok (Closed.alike (by decide))
  | object s | extend base s =>
    obtain ⟨ps, required⟩ := s
    exact .error _
  | _ => exact .error _

/-- What is required stays so if no two names become one. -/
theorem contains_map {names required : List String}
    (h : Set.InjOn σ {name | name ∈ names ++ required}) :
    ∀ name ∈ names, (required.map σ).contains (σ name) = required.contains name := by
  intro name hname
  rw [Bool.eq_iff_iff, List.contains_iff_mem, List.contains_iff_mem, List.mem_map]
  constructor
  · rintro ⟨other, hother, heq⟩
    rw [← h (List.mem_append_right _ hother) (List.mem_append_left _ hname) heq]
    exact hother
  · exact fun hmem => ⟨name, hmem, rfl⟩

/-- One case for each form: the texts of the form stand quoted between fixed texts. -/
theorem alike_renderForm {form : Form Validator} (hnames : Set.InjOn σ {name | name ∈ form.names})
    (hreference : ∀ name, form = .reference name → Closed name)
    (h : ∀ v ∈ form.children, v.RendersAlike σ) :
    Outcome.Both Alike (renderForm form) (renderForm (renameForm σ form)) := by
  have hfixed : ∀ {s : String}, Closed s → Alike s s := Closed.alike
  cases form with
  | object s =>
    obtain ⟨ps, required⟩ := s
    rw [renameForm, renderForm, renderForm]
    refine (alike_renderFields (contains_map hnames) h).map fun xs ys hxs => ?_
    exact ((hfixed (by decide)).append (alike_braced hxs)).append (hfixed (by decide))
  | string | boolean | datetime | any | undefined => exact .ok (hfixed (by decide))
  | number b => exact .ok (alike_bounds b (by decide))
  | array item =>
    rw [renameForm, renderForm, renderForm]
    refine (h item List.mem_cons_self).map fun code code' hcode => ?_
    exact ((hfixed (by decide)).append hcode).append (hfixed (by decide))
  | enum values =>
    rw [renameForm, renderForm, renderForm]
    have hvalues := Alike.intercalate (show Closed ", " by decide) (alike_enum σ values)
    exact .ok (((hfixed (by decide)).append hvalues).append (hfixed (by decide)))
  | literal v =>
    rw [renameForm, renderForm, renderForm]
    exact .ok (((hfixed (by decide)).append (alike_compact σ v)).append (hfixed (by decide)))
  | reference name =>
    rw [renameForm, renderForm]
    · exact .ok (((hfixed (by decide)).append (hfixed (hreference name rfl))).append
        (hfixed (by decide)))
    all_goals simp
  | coerce inner =>
    obtain ⟨form, d⟩ := inner
    rw [renameForm, rename, renderForm, renderForm]
    exact alike_renderCoerced form
  | nullable inner | optional inner =>
    rw [renameForm, renderForm, renderForm]
    exact (h inner List.mem_cons_self).map fun code code' hcode =>
      hcode.append (hfixed (by decide))
  | default inner v =>
    rw [renameForm, renderForm, renderForm]
    refine (h inner List.mem_cons_self).map fun code code' hcode => ?_
    exact ((hcode.append (hfixed (by decide))).append (alike_compact σ v)).append
      (hfixed (by decide))
  | union options =>
    rcases options with _ | ⟨v, _ | ⟨w, vs⟩⟩
    · rw [renameForm, renameAll, renderForm]
      exact .error _
    · rw [renameForm, renameAll, renameAll, renderForm, renderForm]
      exact h v List.mem_cons_self
    · have hall := alike_renderAll h
      rw [renameForm]
      simp only [renameAll] at hall ⊢
      rw [renderForm_union, renderForm_union]
      refine hall.map fun codes codes' hcodes => ?_
      have hoptions := Alike.intercalate (show Closed ", " by decide) hcodes
      exact ((hfixed (by decide)).append hoptions).append (hfixed (by decide))
  | discriminatedUnion d options =>
    rw [renameForm, renderForm, renderForm]
    refine (alike_renderAll h).map fun codes codes' hcodes => ?_
    have hoptions := Alike.intercalate (show Closed ", " by decide) hcodes
    exact ((((hfixed (by decide)).append (alike_quote d (σ d))).append (hfixed (by decide))).append
      hoptions).append (hfixed (by decide))
  | merge parts =>
    rcases parts with _ | ⟨v, vs⟩
    · rw [renameForm, renameAll, renderForm]
      exact .error _
    · rw [renameForm, renameAll, renderForm, renderForm]
      refine (h v List.mem_cons_self).bind fun head head' hhead => ?_
      exact (alike_renderAll fun w hw => h w (List.mem_cons_of_mem _ hw)).map
        fun parts parts' hparts => alike_merge hhead hparts
  | extend base s =>
    obtain ⟨ps, required⟩ := s
    rw [renameForm, renderForm, renderForm]
    refine (h base List.mem_cons_self).bind fun code code' hcode => ?_
    refine (alike_renderFields (contains_map hnames)
      fun v hv => h v (List.mem_cons_of_mem _ hv)).map fun xs ys hxs => ?_
    exact ((hcode.append (hfixed (by decide))).append (alike_braced hxs)).append
      (hfixed (by decide))

theorem alike_described {code code' : String} (h : Alike code code') (d : Option String) :
    Alike (described code d) (described code' (d.map σ)) := by
  cases d with
  | none => exact h
  | some d =>
    exact ((h.append (Closed.alike (by decide))).append (alike_quote d (σ d))).append
      (Closed.alike (by decide))

/-- Replacing texts keeps what is rendered alike, from the parts of a validator up. -/
theorem rendersAlike (v : Validator)
    (hnames : ∀ node ∈ v.nodes, Set.InjOn σ {name | name ∈ node.names})
    (hclosed : ∀ name ∈ v.references, Closed name) : v.RendersAlike σ := by
  induction v using induction_children with
  | h v ih =>
    obtain ⟨form, d⟩ := v
    rw [nodes_eq] at hnames
    rw [references_eq] at hclosed
    simp only [mem_nodesOfForm] at hnames
    simp only [mem_referencesOfForm] at hclosed
    have hform := alike_renderForm (hnames form (.inl rfl)) (fun name h => hclosed name (.inl h))
      fun w hw => ih w hw (fun node hnode => hnames node (.inr ⟨w, hw, hnode⟩))
        fun name hname => hclosed name (.inr ⟨w, hw, hname⟩)
    rw [RendersAlike, rename, render, render]
    exact hform.map fun code code' hcode => alike_described hcode d

/-- Replacing the texts of a validator changes neither whether it is rendered nor the skeleton of
what is rendered, when no two names of a shape become one and the names of references close what
they open. -/
theorem skeleton_render_rename {v : Validator}
    (hnames : ∀ node ∈ v.nodes, Set.InjOn σ {name | name ∈ node.names})
    (hclosed : ∀ name ∈ v.references, Closed name) :
    ((∃ code, (v.rename σ).render = .ok code) ↔ ∃ code, v.render = .ok code)
      ∧ ∀ code code', v.render = .ok code → (v.rename σ).render = .ok code' →
          skeleton code' = skeleton code := by
  have halike := rendersAlike v hnames hclosed
  unfold RendersAlike at halike
  generalize v.render = x at halike ⊢
  generalize (v.rename σ).render = y at halike ⊢
  cases halike with
  | ok h =>
    refine ⟨⟨fun _ => ⟨_, rfl⟩, fun _ => ⟨_, rfl⟩⟩, ?_⟩
    rintro code code' hcode hcode'
    cases hcode
    cases hcode'
    exact h.skeleton.symm
  | error e => simp

section Label

/-- A property that may be missing, with a quote in its name, and texts in a default value. -/
def label : Validator where
  form := .object ⟨[("a\"b", ⟨.reference "petSchema", some "\\"⟩),
    ("size", .plain (.default (.plain .string) (.obj [("\"", .str "s")])))], ["size", "color"]⟩
  description := some "a (label).\n"

/-- Text that would end a quoted text, and a call around it. -/
def withEnding (s : String) : String := s ++ "\")"

theorem withEnding_injective : Function.Injective withEnding := by
  intro s t h
  have hlist := congrArg String.toList h
  rw [withEnding, withEnding, String.toList_append, String.toList_append] at hlist
  exact String.toList_injective (List.append_left_injective _ hlist)

end Label

theorem skeleton_render_rename_label : ∃ code code', label.render = .ok code
    ∧ (label.rename withEnding).render = .ok code' ∧ code' ≠ code
    ∧ skeleton code' = skeleton code := by
  obtain ⟨code, hcode⟩ : ∃ code, label.render = .ok code := ⟨_, rfl⟩
  have hclosed : ∀ name ∈ label.references, Closed name := by decide
  obtain ⟨hiff, hskeleton⟩ := skeleton_render_rename (σ := withEnding) (v := label)
    (fun node _ => withEnding_injective.injOn) hclosed
  obtain ⟨code', hcode'⟩ := hiff.2 ⟨code, hcode⟩
  refine ⟨code, code', hcode, hcode', ?_, hskeleton code code' hcode hcode'⟩
  rintro rfl
  exact absurd (hcode'.trans hcode.symm) (by decide +kernel)

/-- A name that is a quote turns the description behind it into code. -/
theorem skeleton_render_rename_openQuote : ∃ (v : Validator) (σ : String → String)
    (code code' : String), Function.Injective σ ∧ v.render = .ok code
      ∧ (v.rename σ).render = .ok code' ∧ skeleton code' ≠ skeleton code := by
  refine ⟨⟨.reference "\"", some "s"⟩, withEnding, _, _, withEnding_injective, rfl, rfl, ?_⟩
  decide +kernel

end Validator

end ZodGen
