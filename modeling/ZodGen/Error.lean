/-!
# Why a request fails

An error is a cause and a detail, usually the place at fault. The cause alone decides the words in
front of the detail.
-/

namespace ZodGen

/-- What went wrong. -/
inductive Cause where
  | io
  | unsupportedReferenceKind
  | referenceNotFound
  | invalidReference
  | circularReference
  | invalidSpec
  | invalidDiscriminatedUnion
  | invalidEnum
  | missingArrayItems
  | missingParameterSchema
  | noResponsesDefined
  | unsupportedStatusCode
  | unsupportedCoercion
  | invalidComposition
  | bindingCollision
  | malformedSource
  | general
  deriving DecidableEq, Repr

/-- The words a message starts with. -/
def Cause.title : Cause → String
  | .io => "IO Error"
  | .unsupportedReferenceKind => "Unsupported reference kind"
  | .referenceNotFound => "Reference not found"
  | .invalidReference => "Invalid reference"
  | .circularReference => "Circular reference"
  | .invalidSpec => "Invalid OpenAPI document"
  | .invalidDiscriminatedUnion => "Invalid discriminated union"
  | .invalidEnum => "Invalid enum"
  | .missingArrayItems => "Array schema without items"
  | .missingParameterSchema => "Parameter without schema"
  | .noResponsesDefined => "No responses defined"
  | .unsupportedStatusCode => "Unsupported status code"
  | .unsupportedCoercion => "Unsupported coercion"
  | .invalidComposition => "Invalid composition"
  | .bindingCollision => "Binding name collision"
  | .malformedSource => "Malformed source"
  | .general => "General Error"

structure Error where
  cause : Cause
  detail : String
  deriving DecidableEq, Repr

/-- The text shown to a user. -/
def Error.message (e : Error) : String := e.cause.title ++ ": " ++ e.detail

/-- A result, or the reason why there is none. -/
abbrev Outcome := Except Error

def fail {α : Type} (cause : Cause) (detail : String) : Outcome α := .error ⟨cause, detail⟩

end ZodGen
