import ZodGen.Document.Basic
import ZodGen.Reference.Basic
import ZodGen.Schema.Compile

/-!
# Parameters of an operation

An operation has the parameters of its path and its own. Of those with the same name and location
the last counts, in the place of the first.
-/

namespace ZodGen.Operation

/-- Where a parameter stands in a request. -/
inductive Location where
  | path
  | query
  | header
  | cookie
  deriving DecidableEq, Repr

namespace Location

def name : Location → String
  | .path => "path"
  | .query => "query"
  | .header => "header"
  | .cookie => "cookie"

def parse? : String → Option Location
  | "path" => some .path
  | "query" => some .query
  | "header" => some .header
  | "cookie" => some .cookie
  | _ => none

end Location

/-- The name of a parameter; empty when none is given. -/
def parameterName (p : Value) : String := (p.str? "name").getD ""

/-- The word for a parameter's location; empty when none is given. -/
def parameterPlace (p : Value) : String := (p.str? "in").getD ""

/-- Whether `required: true` is given. -/
def isRequired (v : Value) : Bool := ((v.get? "required").bind Value.asBool?).getD false

/-- The parameters of an operation, those of its path first. -/
def allParameters (op : Document.Operation) : List Value :=
  op.pathParameters ++ (op.body.arr? "parameters").getD []

/-- The parameters that count, by name and location. -/
def mergeParameters (ps : List Value) : List ((String × String) × Value) :=
  Assoc.ofList (ps.map fun p => ((parameterName p, parameterPlace p), p))

/-- The parameters that count, with their references resolved. -/
def mergedParameters (root : Value) (op : Document.Operation) : Outcome (List Value) := do
  let resolved ← (allParameters op).mapM (Reference.resolveObject root)
  .ok (Assoc.values (mergeParameters resolved))

/-- The parameters of a request, by location. -/
structure Parameters where
  path : Shape Validator := .empty
  query : Shape Validator := .empty
  header : Shape Validator := .empty

/-- Adds a parameter's validator to its location. -/
def Parameters.insert (ps : Parameters) (l : Location) (name : String) (v : Validator)
    (required : Bool) : Parameters :=
  match l with
  | .path => { ps with path := ps.path.insert name v required }
  | .query => { ps with query := ps.query.insert name v required }
  | .header => { ps with header := ps.header.insert name v required }
  | .cookie => ps

/-- How the values of a location are read. -/
def Location.options : Location → Schema.Options
  | .query => .query
  | .header => .header
  | _ => {}

/-- Adds one parameter. Those in cookies and in unknown places are left out. -/
def addParameter (c : Schema.Compiler) (label : String) (ps : Parameters) (p : Value) :
    Outcome Parameters :=
  let place := parameterPlace p
  match Location.parse? place with
  | none => .ok ps
  | some .cookie => .ok ps
  | some l => do
    let name := parameterName p
    match p.get? "schema" with
    | none => fail .missingParameterSchema s!"{place} parameter `{name}` of {label}"
    | some schema => do
      let v ← c.compile schema l.options
      .ok (ps.insert l name (v.describe (p.str? "description")) (isRequired p))

end ZodGen.Operation
