import ZodGen.Error
import ZodGen.Json.Basic
import ZodGen.Reference.Pointer
import ZodGen.Url.Absolute

/-!
# References

A reference names a document and a place in it, parted by the first `#`. Only places of the document
at hand are followed: `resolve` walks one reference, `resolveObject` a chain of them, and
`componentTarget` says which component a reference leads into.
-/

namespace ZodGen

/-- Where a reference leads. -/
inductive Reference.Kind where
  | inside
  | relative
  | remote
  deriving DecidableEq, Repr

/-- A reference in its two parts. -/
structure Reference where
  document : String
  fragment : Option String
  kind : Reference.Kind
  deriving DecidableEq, Repr

namespace Reference

def Kind.name : Kind → String
  | .inside => "local"
  | .relative => "relative"
  | .remote => "remote"

/-- A reference is local without a document part, remote when that part is an absolute URL, and
relative otherwise. -/
def parse (text : String) : Reference :=
  let cs := text.toList
  let document := String.ofList (cs.takeWhile (· != '#'))
  let fragment := match cs.dropWhile (· != '#') with
    | _ :: rest => some (String.ofList rest)
    | [] => none
  let kind :=
    if document.isEmpty then Kind.inside
    else if Url.isAbsolute document then .remote
    else .relative
  ⟨document, fragment, kind⟩

/-- The word for a reference that is no pointer into the document at hand. -/
def unsupportedWord (text : String) : String :=
  match (parse text).kind with
  | .inside => "malformed local"
  | kind => kind.name

/-- The keys a local reference walks along. -/
def keys (text : String) : Outcome (List String) :=
  match Pointer.keys? text with
  | some ks => .ok ks
  | none => fail .unsupportedReferenceKind s!"{text} ({unsupportedWord text} reference)"

/-- A place in a list: decimal digits, after one `+` at most. -/
def index? (key : String) : Option Nat :=
  let ds := match key.toList with
    | '+' :: ds => ds
    | ds => ds
  if ds.isEmpty || !ds.all Char.isDigit then none
  else some (Json.ofDigits ds)

/-- One step into a value. -/
def step? (v : Value) (key : String) : Option Value :=
  match v with
  | .obj ms => Assoc.get? key ms
  | .arr items => (index? key).bind (items[·]?)
  | _ => none

/-- Follows keys from a value. -/
def walk? : Value → List String → Option Value
  | v, [] => some v
  | v, key :: rest => (step? v key).bind (walk? · rest)

/-- The value a local reference leads to. -/
def resolve (root : Value) (text : String) : Outcome Value := do
  let ks ← keys text
  match walk? root ks with
  | some v => .ok v
  | none => fail .referenceNotFound text

end Reference

mutual

/-- All texts under `$ref` in a value. -/
def Value.refs : Value → List String
  | .arr items => Value.refsOfItems items
  | .obj ms => Value.refsOfMembers ms
  | _ => []

def Value.refsOfItems : List Value → List String
  | [] => []
  | v :: vs => v.refs ++ Value.refsOfItems vs

/-- All texts under `$ref` in the members of an object, its own included. -/
def Value.refsOfMembers : List (String × Value) → List String
  | [] => []
  | (key, v) :: ms =>
    (match key, v with
      | "$ref", .str s => [s]
      | _, v => v.refs) ++ Value.refsOfMembers ms

end

namespace Reference

/-- The references other than one. -/
def others (r : String) (pending : List String) : List String := pending.filter (· != r)

theorem length_others_lt {r : String} {pending : List String} (h : r ∈ pending) :
    (others r pending).length < pending.length := by
  unfold others
  rw [List.length_filter_lt_length_iff_exists]
  exact ⟨r, h, by simp⟩

/-- Follows `$ref`s from a value; `pending` holds the references not taken yet. A reference that is
taken a second time is circular. -/
def follow (root : Value) (pending : List String) (v : Value) : Outcome Value :=
  match v.ref? with
  | none => .ok v
  | some r =>
    if _h : r ∈ pending then
      match resolve root r with
      | .ok next => follow root (others r pending) next
      | .error e => .error e
    else
      fail .circularReference r
termination_by pending.length
decreasing_by exact length_others_lt (by assumption)

/-- The first value without `$ref` on the chain that starts at a value. -/
def resolveObject (root v : Value) : Outcome Value := follow root (v.refs ++ root.refs) v

/-- A component: its section and its name. -/
structure Target where
  kind : String
  name : String
  deriving DecidableEq, Repr

/-- The component a local reference leads to or into; none when it leads elsewhere. -/
def componentTarget (text : String) : Outcome (Option Target) := do
  match ← keys text with
  | first :: kind :: name :: _ =>
    if first = "components" ∧ kind ≠ "" ∧ name ≠ "" then .ok (some ⟨kind, name⟩) else .ok none
  | _ => .ok none

/-- The name of the schema component that a reference is exactly the pointer of. -/
def schemaName? (text : String) : Option String :=
  match (text.toList.drop "#/components/schemas/".length) with
  | [] => none
  | rest =>
    if "#/components/schemas/".toList.isPrefixOf text.toList && !rest.contains '/' then
      some (String.ofList (Pointer.decodeChars rest))
    else none

end Reference

end ZodGen
