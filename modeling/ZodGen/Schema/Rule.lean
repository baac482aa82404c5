import ZodGen.Schema.Compile

/-!
# The rule a schema falls under

`Rule.of` says which rule of the compiler a schema without `$ref` falls under, with the schemas that
the rule compiles. The rules are tried in order, and a schema with none of the members they ask for
goes by its type.
-/

namespace ZodGen.Schema

/-- A rule, with what it compiles. -/
inductive Rule where
  /-- Alternatives told apart by a discriminator. -/
  | tagged (d : Discriminator) (alts : List Value)
  /-- Parts, and the properties beside them. -/
  | allOf (parts : List Value) (own : Option (Assoc Value))
  | alternatives (alts : List Value)
  | properties (ps : Assoc Value)
  | array (item : Option Value)
  /-- A type without schemas in it. -/
  | plain

def Rule.of (schema : Value) : Rule :=
  match schema.arr? "oneOf", discriminator? schema with
  | some alts, some d => .tagged d alts
  | oneOf, _ =>
    match schema.arr? "allOf" with
    | some parts => .allOf parts (schema.obj? "properties")
    | none =>
      match oneOf.or (schema.arr? "anyOf") with
      | some alts => .alternatives alts
      | none =>
        match schema.obj? "properties" with
        | some ps => .properties ps
        | none =>
          if schema.str? "type" = some "array" then .array (schema.get? "items") else .plain

/-- The form of a schema that is not an array and has no rule of its own. -/
def plainForm (o : Options) (schema : Value) : Outcome (Form Validator) :=
  match schema.str? "type" with
  | some "string" =>
    if schema.str? "format" = some "date-time" then .ok .datetime
    else match schema.get? "enum" with
      | some values => enumForm values
      | none => .ok .string
  | some "number" => .ok (leaf o (.number ⟨minimum schema, maximum schema⟩))
  | some "integer" => .ok (leaf o (.number ⟨minimum schema, maximum schema⟩))
  | some "boolean" => .ok (leaf o .boolean)
  | some "object" => .ok (.object Shape.empty)
  | _ => .ok .any

/-- The alternatives under a discriminator that are references with a tag, with their tags. -/
def taggedReferences (d : Discriminator) (alts : List Value) : List (String × String) :=
  alts.filterMap fun alt => do
    let r ← alt.ref?
    some (r, ← d.tagFor? r)

end ZodGen.Schema
