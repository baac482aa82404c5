import ZodGen.Json.Printer
import ZodGen.Reference.BindingName
import ZodGen.Schema.View
import ZodGen.Validator.Basic

/-!
# Validators of schemas

The rules are tried in this order: `$ref`, `oneOf` with a discriminator, `allOf`, `oneOf` or
`anyOf`, `properties`, and last the type. A reference to a schema component becomes a reference to
its validator; any other reference, and every reference in `allOf` or under a discriminator, is
replaced by what it leads to.

References that are being replaced are not replaced again. `pending` holds those that still may be,
so each replacement makes it shorter, and between two replacements the schema gets smaller.
-/

namespace ZodGen.Schema

/-- How numbers and booleans are read. Those of a query or a header arrive as text. -/
structure Options where
  coerce : Bool := false
  isHeader : Bool := false
  deriving DecidableEq, Repr

namespace Options

def query : Options := ⟨true, false⟩

def header : Options := ⟨false, true⟩

/-- Whether numbers and booleans arrive as text. -/
def coerces (o : Options) : Bool := o.coerce || o.isHeader

end Options

/-- A document, and how its schema components are named. -/
structure Compiler where
  root : Value
  bindingName : String → Outcome String := BindingName.ofReference

/-- A number or boolean, read from text if the options ask for it. -/
def leaf (o : Options) (form : Form Validator) : Form Validator :=
  if o.coerces then .coerce (.plain form) else form

/-- The texts of an enumeration. -/
def enumTexts : List Value → Outcome (List String)
  | [] => .ok []
  | .str s :: vs => do .ok (s :: (← enumTexts vs))
  | v :: _ => fail .invalidEnum s!"non-string enum value {Json.compact v}"

/-- The form of a text schema with an enumeration. -/
def enumForm (values : Value) : Outcome (Form Validator) :=
  match values with
  | .arr [] => fail .invalidEnum "enum has no values"
  | .arr vs => do .ok (.enum (← enumTexts vs))
  | v => fail .invalidEnum s!"expected an array, got {Json.compact v}"

/-- A list of alternatives: none accepts anything, one is itself, more are a union. -/
def alternatives : List Validator → Form Validator
  | [] => .any
  | [v] => v.form
  | vs => .union vs

/-- Absorbs the parts that are objects, in order. -/
def absorbParts (shape : Shape Validator) (parts : List Validator) : Shape Validator :=
  parts.foldl (fun s part => match part.shape? with
    | some p => s.absorb p
    | none => s) shape

/-- The validator of a form, as a schema's own members ask. -/
def finish (schema : Value) (form : Form Validator) : Validator :=
  let description := schema.str? "description"
  if nullable schema then ⟨.nullable (.plain form), description⟩ else ⟨form, description⟩

/-- A variant under a discriminator: an object whose tag is a literal. -/
def tagged (property tag reference : String) (v : Validator) : Outcome Validator :=
  match v.form with
  | .object shape =>
    .ok ⟨.object (shape.insert property (.literalText tag) true), v.description⟩
  | form => fail .invalidDiscriminatedUnion s!"{reference} lowers to {form.tag}, expected object"

theorem sizeOf_lt_of_mem_members {key : String} {v : Value} {ms : List (String × Value)}
    (h : (key, v) ∈ ms) : sizeOf v < sizeOf ms := by
  have h1 := List.sizeOf_lt_of_mem h
  have h2 : sizeOf (key, v) = 1 + sizeOf key + sizeOf v := rfl
  omega

theorem mem_of_get? {α : Type} {key : String} {v : α} {ms : Assoc α}
    (h : Assoc.get? key ms = some v) : (key, v) ∈ ms := by
  induction ms with
  | nil => simp [Assoc.get?] at h
  | cons m ms ih =>
    obtain ⟨k, w⟩ := m
    simp only [Assoc.get?] at h
    split at h
    · simp_all
    · exact List.mem_cons_of_mem _ (ih h)

theorem sizeOf_get?_lt {schema v : Value} {key : String} (h : schema.get? key = some v) :
    sizeOf v < sizeOf schema := by
  cases schema with
  | obj ms =>
    have := sizeOf_lt_of_mem_members (mem_of_get? h)
    simp
    omega
  | _ => simp [Value.get?] at h

theorem sizeOf_arr?_lt {schema : Value} {key : String} {vs : List Value}
    (h : schema.arr? key = some vs) : sizeOf vs < sizeOf schema := by
  obtain ⟨v, hv, ha⟩ := Option.bind_eq_some_iff.1 h
  cases v with
  | arr items =>
    simp only [Value.asArr?, Option.some.injEq] at ha
    have := sizeOf_get?_lt hv
    simp at this
    subst ha
    omega
  | _ => simp [Value.asArr?] at ha

theorem sizeOf_obj?_lt {schema : Value} {key : String} {ms : Assoc Value}
    (h : schema.obj? key = some ms) : sizeOf ms < sizeOf schema := by
  obtain ⟨v, hv, ha⟩ := Option.bind_eq_some_iff.1 h
  cases v with
  | obj members =>
    simp only [Value.asObj?, Option.some.injEq] at ha
    have := sizeOf_get?_lt hv
    simp at this
    subst ha
    omega
  | _ => simp [Value.asObj?] at ha

mutual

/-- The validator of a schema. -/
def compileWith (c : Compiler) (pending : List String) (o : Options) (schema : Value) :
    Outcome Validator :=
  match schema.ref? with
  | some r =>
    if (Reference.schemaName? r).isSome then do
      .ok ⟨.reference (← c.bindingName r), schema.str? "description"⟩
    else expand c pending o false r
  | none => do .ok (finish schema (← lower c pending o schema))
termination_by (pending.length, sizeOf schema + 1, 1)

/-- The form of a schema without `$ref`. -/
def lower (c : Compiler) (pending : List String) (o : Options) (schema : Value) :
    Outcome (Form Validator) :=
  match _hone : schema.arr? "oneOf", discriminator? schema with
  | some alts, some d =>
    match d.propertyName? with
    | none => fail .invalidDiscriminatedUnion "discriminator has no propertyName"
    | some property => do
      .ok (.discriminatedUnion property (← variants c pending o d property alts))
  | oneOf, _ =>
    match _hall : schema.arr? "allOf", _hprops : schema.obj? "properties" with
    | some parts, some ps => do
      let shape := absorbParts (Shape.empty.require (required schema))
        (← compileParts c pending o parts)
      let own ← compileMembers c pending o ps
      .ok (.object (shape.absorb ((Shape.mk own []).require (required schema))))
    | some parts, none => do
      .ok (.object (absorbParts (Shape.empty.require (required schema))
        (← compileParts c pending o parts)))
    | none, props =>
      match oneOf, _hany : schema.arr? "anyOf" with
      | some alts, _ => do .ok (alternatives (← compileItems c pending o alts))
      | none, some alts => do .ok (alternatives (← compileItems c pending o alts))
      | none, none =>
        match props with
        | some ps => do
          .ok (.object ((Shape.mk (← compileMembers c pending o ps) []).require (required schema)))
        | none =>
          match schema.str? "type" with
          | some "string" =>
            if schema.str? "format" = some "date-time" then .ok .datetime
            else match schema.get? "enum" with
              | some values => enumForm values
              | none => .ok .string
          | some "number" => .ok (leaf o (.number ⟨minimum schema, maximum schema⟩))
          | some "integer" => .ok (leaf o (.number ⟨minimum schema, maximum schema⟩))
          | some "boolean" => .ok (leaf o .boolean)
          | some "array" =>
            match _hitems : schema.get? "items" with
            | some item => do .ok (.array (← compileWith c pending o item))
            | none =>
              fail .missingArrayItems ((schema.str? "description").getD "array schema")
          | some "object" => .ok (.object Shape.empty)
          | _ => .ok .any
termination_by (pending.length, sizeOf schema + 1, 0)
decreasing_by
  all_goals
    apply Prod.Lex.right
    apply Prod.Lex.left
    first
      | exact Nat.succ_lt_succ (sizeOf_arr?_lt (by assumption))
      | exact Nat.succ_lt_succ (sizeOf_obj?_lt (by assumption))
      | exact Nat.succ_lt_succ (sizeOf_get?_lt (by assumption))

def compileItems (c : Compiler) (pending : List String) (o : Options) (schemas : List Value) :
    Outcome (List Validator) :=
  match schemas with
  | [] => .ok []
  | s :: rest => do
    let v ← compileWith c pending o s
    .ok (v :: (← compileItems c pending o rest))
termination_by (pending.length, sizeOf schemas + 1, 0)

/-- The validators of the parts under `allOf`; a reference is replaced. -/
def compileParts (c : Compiler) (pending : List String) (o : Options) (parts : List Value) :
    Outcome (List Validator) :=
  match parts with
  | [] => .ok []
  | part :: rest => do
    let v ← match part.ref? with
      | some r => expand c pending o true r
      | none => compileWith c pending o part
    .ok (v :: (← compileParts c pending o rest))
termination_by (pending.length, sizeOf parts + 1, 0)

def compileMembers (c : Compiler) (pending : List String) (o : Options)
    (ms : List (String × Value)) : Outcome (List (String × Validator)) :=
  match ms with
  | [] => .ok []
  | (name, s) :: rest => do
    let v ← compileWith c pending o s
    .ok ((name, v) :: (← compileMembers c pending o rest))
termination_by (pending.length, sizeOf ms + 1, 0)

/-- The variants under a discriminator: the alternatives that are references with a tag. -/
def variants (c : Compiler) (pending : List String) (o : Options) (d : Discriminator)
    (property : String) (alts : List Value) : Outcome (List Validator) :=
  match alts with
  | [] => .ok []
  | alt :: rest =>
    match alt.ref? with
    | none => variants c pending o d property rest
    | some r =>
      match d.tagFor? r with
      | none => variants c pending o d property rest
      | some tag => do
        let v ← tagged property tag r (← expand c pending o true r)
        .ok (v :: (← variants c pending o d property rest))
termination_by (pending.length, sizeOf alts + 1, 0)

/-- The validator of what a reference leads to; with `follow`, a target that is itself a reference
is replaced as well. A reference that is being replaced already is circular. -/
def expand (c : Compiler) (pending : List String) (o : Options) (follow : Bool) (r : String) :
    Outcome Validator :=
  if _h : r ∈ pending then
    match Reference.resolve c.root r with
    | .error e => .error e
    | .ok target =>
      match target.ref?, follow with
      | some next, true => expand c (Reference.others r pending) o true next
      | _, _ => compileWith c (Reference.others r pending) o target
  else
    fail .circularReference r
termination_by (pending.length, 0, 0)
decreasing_by
  all_goals
    apply Prod.Lex.left
    exact Reference.length_others_lt (by assumption)

end

/-- The validator of a schema: every reference in it and in the document may be replaced once. -/
def Compiler.compile (c : Compiler) (schema : Value) (o : Options) : Outcome Validator :=
  compileWith c (schema.refs ++ c.root.refs) o schema

end ZodGen.Schema
