import ZodGen.Script.Token

/-!
# What a script says about names

Name resolution looks only at this much of a script: where names are declared, where they are used,
and which scopes lie around both. A scope has a header and a body; names used in the header see what
the header declares, but nothing of the body.
-/

namespace ZodGen.Script

/-- What a declared name stands for. A name declared several times stands for all of it. -/
structure Meaning where
  value : Bool := false
  type : Bool := false
  /-- An import of types only: no value, but `typeof` may name it. -/
  typeImport : Bool := false
  /-- A namespace, whose members are named behind a dot. -/
  space : Bool := false
  deriving DecidableEq, Repr

namespace Meaning

def ofValue : Meaning := { value := true }

def ofType : Meaning := { type := true }

/-- Classes, enumerations and imports. -/
def ofBoth : Meaning := { value := true, type := true }

/-- A name imported as a type. -/
def ofTypeImport : Meaning := { type := true, typeImport := true }

/-- Both meanings together. -/
def union (a b : Meaning) : Meaning :=
  ⟨a.value || b.value, a.type || b.type, a.typeImport || b.typeImport, a.space || b.space⟩

end Meaning

/-- How a name is used. -/
inductive Use where
  | value
  | type
  /-- Behind `typeof` in a type. -/
  | typeOf
  /-- In an export, as whatever it is. -/
  | any
  /-- In front of a dot in a type. -/
  | space
  deriving DecidableEq, Repr

/-- Whether a name with this meaning may be used so. -/
def Meaning.admits (m : Meaning) : Use → Bool
  | .value => m.value
  | .type => m.type
  | .typeOf => m.value || m.typeImport
  | .any => m.value || m.type
  | .space => m.type || m.space

/-- Where a declared name lives. -/
inductive Reach where
  /-- In the scope around the declaration. -/
  | block
  /-- In the function, module or namespace around it. -/
  | hoisted
  /-- In the conditional type around it. -/
  | conditional
  deriving DecidableEq, Repr

/-- The kinds of scopes that names tell apart. -/
inductive ScopeKind where
  | block
  /-- A function, namespace or the module itself, where hoisted names live. -/
  | body
  /-- A conditional type. -/
  | conditional
  deriving DecidableEq, Repr

/-- Declarations, uses and scopes in the order of the text. -/
inductive Item where
  | declare (name : String) (span : Span) (meaning : Meaning) (reach : Reach)
  | use (name : String) (span : Span) (use : Use)
  | scope (kind : ScopeKind) (header body : List Item)

/-- The kinds of variable declarations that may be cut. -/
inductive VariableKind where
  | var
  | let_
  | const
  deriving DecidableEq, Repr

/-- The keyword of a variable declaration. -/
def VariableKind.keyword : VariableKind → String
  | .var => "var"
  | .let_ => "let"
  | .const => "const"

/-- A variable declaration: its kind, its place, and its declarators in order. -/
structure Declaration where
  kind : VariableKind
  span : Span
  declarators : List Span
  deriving DecidableEq, Repr

/-- A script: its statements, of which the variable declarations that are neither exported nor
ambient are told apart, and its names. -/
structure Program where
  statements : List (Option Declaration)
  items : List Item

end ZodGen.Script
