import ZodGen.Json.Basic

/-!
# Validators

A validator says which values are accepted. It is a form, which may hold further validators, and a
description for people. `Shape` is the property part of objects: which properties there are, and
which of them must be present.
-/

namespace ZodGen

/-- Properties in order, and the names that must be present. -/
structure Shape (α : Type) where
  properties : List (String × α)
  required : List String
  deriving BEq, Repr

/-- Inclusive bounds of a number. -/
structure Bounds where
  min : Option Number
  max : Option Number
  deriving DecidableEq, Repr

/-- What a validator accepts, over the validators it is made of. -/
inductive Form (α : Type) where
  | object (shape : Shape α)
  | string
  | number (bounds : Bounds)
  | boolean
  | datetime
  | any
  | undefined
  | array (item : α)
  | enum (values : List String)
  | literal (value : Value)
  | reference (name : String)
  | coerce (inner : α)
  | nullable (inner : α)
  | optional (inner : α)
  | default (inner : α) (value : Value)
  | union (options : List α)
  | discriminatedUnion (discriminator : String) (options : List α)
  | merge (parts : List α)
  | extend (base : α) (shape : Shape α)
  deriving Repr

/-- A form with its description. -/
structure Validator where
  form : Form Validator
  description : Option String

def Form.tag {α : Type} : Form α → String
  | .object _ => "object"
  | .string => "string"
  | .number _ => "number"
  | .boolean => "boolean"
  | .datetime => "datetime"
  | .any => "any"
  | .undefined => "undefined"
  | .array _ => "array"
  | .enum _ => "enum"
  | .literal _ => "literal"
  | .reference _ => "reference"
  | .coerce _ => "coerce"
  | .nullable _ => "nullable"
  | .optional _ => "optional"
  | .default _ _ => "default"
  | .union _ => "union"
  | .discriminatedUnion _ _ => "discriminatedUnion"
  | .merge _ => "merge"
  | .extend _ _ => "extend"

namespace Shape

variable {α : Type}

/-- No properties and no required names. -/
def empty : Shape α := ⟨[], []⟩

/-- Names with one more at the end, unless it is there. -/
def addName (names : List String) (name : String) : List String :=
  if names.contains name then names else names ++ [name]

def require (s : Shape α) (names : List String) : Shape α :=
  { s with required := names.foldl addName s.required }

/-- Sets a property, and requires it if asked. -/
def insert (s : Shape α) (name : String) (v : α) (required : Bool) : Shape α :=
  ⟨Assoc.set name v s.properties, if required then addName s.required name else s.required⟩

/-- Sets all properties of another shape and requires its names. -/
def absorb (s other : Shape α) : Shape α :=
  ⟨Assoc.extend s.properties other.properties, other.required.foldl addName s.required⟩

/-- No properties. -/
def isEmpty (s : Shape α) : Bool := s.properties.isEmpty

end Shape

namespace Validator

/-- A form without description. -/
def plain (form : Form Validator) : Validator := ⟨form, none⟩

/-- An object without description. -/
def object (shape : Shape Validator) : Validator := plain (.object shape)

/-- Exactly one text. -/
def literalText (s : String) : Validator := plain (.literal (.str s))

/-- The same, or absent. -/
def optional (v : Validator) : Validator := plain (.optional v)

/-- The description that is given, else the one at hand. -/
def describe (v : Validator) (description : Option String) : Validator :=
  match description with
  | some d => { v with description := some d }
  | none => v

def shape? (v : Validator) : Option (Shape Validator) :=
  match v.form with
  | .object s => some s
  | _ => none

end Validator

end ZodGen
