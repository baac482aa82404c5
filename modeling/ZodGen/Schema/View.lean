import ZodGen.Json.Basic

/-!
# The known members of a schema

A schema is a JSON value. Each known member is read under its key and counts only with the right
type; anything else is as good as absent.
-/

namespace ZodGen.Schema

def required (schema : Value) : List String :=
  ((schema.arr? "required").getD []).filterMap Value.asStr?

/-- Whether `null` is accepted as well. -/
def nullable (schema : Value) : Bool := ((schema.get? "nullable").bind Value.asBool?).getD false

def minimum (schema : Value) : Option Number := (schema.get? "minimum").bind Value.asNum?

def maximum (schema : Value) : Option Number := (schema.get? "maximum").bind Value.asNum?

/-- How the alternatives of a schema are told apart. -/
structure Discriminator where
  members : Assoc Value

/-- The discriminator, when it is an object. -/
def discriminator? (schema : Value) : Option Discriminator :=
  (schema.obj? "discriminator").map Discriminator.mk

/-- The property that holds the tag. -/
def Discriminator.propertyName? (d : Discriminator) : Option String :=
  (Assoc.get? "propertyName" d.members).bind Value.asStr?

/-- The first tag that is mapped to a reference. -/
def Discriminator.tagFor? (d : Discriminator) (reference : String) : Option String := do
  let mapping ← (Assoc.get? "mapping" d.members).bind Value.asObj?
  let (tag, _) ← mapping.find? fun (_, target) => target.asStr? == some reference
  some tag

end ZodGen.Schema
