import ZodGen.Error
import ZodGen.Json.Printer
import ZodGen.Validator.Basic

/-!
# Validators as zod expressions

`Validator.render` writes a validator as the source text of a zod expression. Texts of the validator
are always written quoted. References are written as deferred look-ups, so the order of bindings
does not matter.
-/

namespace ZodGen

open Json (quote)

/-- A number expression with its bounds. -/
def Bounds.render (b : Bounds) (base : String) : String :=
  base ++ (match b.min with | some n => ".min(" ++ n.text ++ ")" | none => "") ++
    (match b.max with | some n => ".max(" ++ n.text ++ ")" | none => "")

/-- An object literal of fields. -/
def braced (fields : List String) : String :=
  if fields.isEmpty then "\x7b\x7d" else "\x7b " ++ ", ".intercalate fields ++ " \x7d"

/-- What may be coerced from text: a number or a boolean. -/
def Form.renderCoerced {α : Type} : Form α → Outcome String
  | .number b => .ok (b.render "z.coerce.number()")
  | .boolean => .ok "z.coerce.boolean()"
  | form => fail .unsupportedCoercion s!"cannot coerce {form.tag}, only number and boolean"

def described (code : String) : Option String → String
  | some d => code ++ ".describe(" ++ quote d ++ ")"
  | none => code

namespace Validator

mutual

/-- The zod expression of a validator. -/
def render : Validator → Outcome String
  | ⟨form, description⟩ => do .ok (described (← renderForm form) description)

def renderForm : Form Validator → Outcome String
  | .object ⟨ps, required⟩ => do
    .ok ("z.object(" ++ braced (← renderFields required ps) ++ ")")
  | .string => .ok "z.string()"
  | .number b => .ok (b.render "z.number()")
  | .boolean => .ok "z.boolean()"
  | .datetime => .ok "z.string().datetime()"
  | .any => .ok "z.any()"
  | .undefined => .ok "z.undefined()"
  | .array item => do .ok ("z.array(" ++ (← render item) ++ ")")
  | .enum values => .ok ("z.enum([" ++ ", ".intercalate (values.map quote) ++ "])")
  | .literal v => .ok ("z.literal(" ++ Json.compact v ++ ")")
  | .reference name => .ok ("z.lazy(() => " ++ name ++ ")")
  | .coerce ⟨form, _⟩ => form.renderCoerced
  | .nullable inner => do .ok ((← render inner) ++ ".nullable()")
  | .optional inner => do .ok ((← render inner) ++ ".optional()")
  | .default inner v => do .ok ((← render inner) ++ ".default(" ++ Json.compact v ++ ")")
  | .union [] => fail .invalidComposition "union without options"
  | .union [single] => render single
  | .union options => do .ok ("z.union([" ++ ", ".intercalate (← renderAll options) ++ "])")
  | .discriminatedUnion d options => do
    .ok ("z.discriminatedUnion(" ++ quote d ++ ", [" ++
      ", ".intercalate (← renderAll options) ++ "])")
  | .merge [] => fail .invalidComposition "merge without parts"
  | .merge (first :: rest) => do
    let head ← render first
    .ok ((← renderAll rest).foldl (fun code part => code ++ ".merge(" ++ part ++ ")") head)
  | .extend base ⟨ps, required⟩ => do
    let code ← render base
    .ok (code ++ ".extend(" ++ braced (← renderFields required ps) ++ ")")

def renderAll : List Validator → Outcome (List String)
  | [] => .ok []
  | v :: vs => do
    let code ← render v
    .ok (code :: (← renderAll vs))

/-- The fields of an object literal; a property that is not required is optional. -/
def renderFields (required : List String) : List (String × Validator) → Outcome (List String)
  | [] => .ok []
  | (name, v) :: ps => do
    let code ← render v
    let field := quote name ++ ": " ++ code ++
      (if required.contains name then "" else ".optional()")
    .ok (field :: (← renderFields required ps))

end

end Validator

end ZodGen
