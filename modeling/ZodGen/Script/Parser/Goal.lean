import ZodGen.Script.Parser.Basic

/-!
# What the script parser can be asked for

The productions of the grammar refer to each other. Each of them takes the others as an argument
(`Grammar`), which is asked for a `Goal`, so every production is a plain function and the recursion
is closed in one place.
-/

namespace ZodGen.Script

/-- What is kept of an expression: enough to tell what may be assigned to, what is a directive, and
which operators may stand together. -/
inductive Expr where
  | name (text : String) (span : Span)
  /-- A property of something. -/
  | member (span : Span)
  /-- A quoted text. -/
  | text (span : Span)
  /-- The items, and where a comma stands behind the last of them. -/
  | array (items : List Expr) (comma : Option Nat) (span : Span)
  /-- The values of the properties, and where a comma stands behind the last of them. -/
  | object (values : List Expr) (comma : Option Nat) (span : Span)
  | spread (inner : Expr) (span : Span)
  /-- Nothing, between two commas of an array. -/
  | hole
  /-- A shorthand property with a default, which only a pattern may have. -/
  | withDefault (span : Span)
  | assign (span : Span)
  | paren (inner : Expr) (span : Span)
  /-- An expression with a type added to it. -/
  | cast (inner : Expr) (span : Span)
  /-- A logical expression, by `??` or not. -/
  | logical (coalesce : Bool) (span : Span)
  | unary (span : Span)
  /-- A function or class with type arguments. -/
  | applied (inner : Expr) (span : Span)
  | other (span : Span)
  deriving Inhabited

def Expr.span : Expr → Span
  | .name _ s => s
  | .member s => s
  | .text s => s
  | .array _ _ s => s
  | .object _ _ s => s
  | .spread _ s => s
  | .hole => ⟨0, 0⟩
  | .withDefault s => s
  | .assign s => s
  | .paren _ s => s
  | .cast _ s => s
  | .logical _ s => s
  | .unary s => s
  | .applied _ s => s
  | .other s => s

def Expr.isName : Expr → Bool
  | .name _ _ => true
  | _ => false

/-- Where a statement stands. -/
inductive Place where
  | list
  /-- Directly under `if` or `else`. -/
  | branch
  /-- Directly under a label or a loop. -/
  | single
  deriving DecidableEq

/-- What is kept of a statement. -/
inductive Statement where
  /-- A variable declaration with an implementation. -/
  | declares (declaration : Declaration)
  /-- Only a quoted text, which may be a directive. -/
  | text
  /-- A declaration of types or an import, which is gone when the script runs. -/
  | erased
  | other
  deriving Inhabited

/-- A binding pattern: whether it is a single name, and its place. -/
structure Pattern where
  isName : Bool
  span : Span
  deriving Inhabited

/-- What a production may ask for, by the type of the answer. -/
inductive Goal : Type → Type where
  | statement (place : Place) : Goal Statement
  /-- An expression without commas. `returnType` allows a return type on an arrow function. -/
  | assignment (returnType : Bool) : Goal Expr
  /-- Operators that bind more tightly than `least`. -/
  | binary (least : Nat) : Goal Expr
  | unary : Goal Expr
  /-- A unary expression that is no update. -/
  | simpleUnary : Goal Expr
  /-- A primary expression with members and calls. -/
  | leftHand : Goal Expr
  /-- The same without calls, and whether it holds `?.`. -/
  | member : Goal (Expr × Bool)
  | pattern (reach : Reach) : Goal Pattern
  | type : Goal Unit

/-- The grammar as a production sees it. -/
abbrev Grammar := {α : Type} → Goal α → Parser α

namespace Parser

/-- `await` and `yield` are no names where they are operators. -/
def checkName : Parser Unit := do
  let t ← token
  let c ← context
  if (c.allowAwait && t.text == "await") || (c.allowYield && t.text == "yield") then
    record t.span.start

/-- A name that may be bound or referred to. -/
def bindingName : Parser (String × Span) := do
  unless ← atBinding do unexpected
  checkName
  let t ← token
  advance
  return (t.text, t.span)

/-- Any word. -/
def anyName : Parser (String × Span) := do
  unless ← atName do unexpected
  let t ← token
  advance
  return (t.text, t.span)

/-- A name that is used as a value. -/
def valueName : Parser Expr := do
  let (name, span) ← bindingName
  use name span .value
  return .name name span

def assignment (g : Grammar) : Parser Expr := g (.assignment true)

/-- Expressions with commas between them. -/
def expression (g : Grammar) : Parser Expr := do
  let start ← place
  inContext (fun c => { c with decorator := false }) do
    let first ← assignment g
    unless ← at_ "," do return first
    repeatWhile do
      unless ← eat "," do return false
      let _ ← assignment g
      return true
    return .other (← spanFrom start)

/-- A type behind a colon, if there is one. -/
def annotation (g : Grammar) : Parser Unit := do
  if ← eat ":" then g .type

/-- Whether the token can be a property name. -/
def Token.isProperty (t : Token) : Bool :=
  t.kind == .word || t.kind == .privateWord || t.kind == .string || t.kind == .number

/-- Whether the token at hand can follow a modifier. -/
def canFollowModifier : Parser Bool := do
  return Token.isProperty (← token) || (← atAny ["[", "\x7b", "*", "..."])

/-- Whether the word at hand is a modifier of what follows it on the same line. -/
def isModifier : Parser Bool := do
  let t ← token
  ahead do
    advance
    match t.text with
    | "const" => at_ "enum"
    | "static" => canFollowModifier
    | _ => return !(← onNewLine) && (← canFollowModifier)

def modifierWords : List String :=
  ["abstract", "accessor", "async", "const", "declare", "in", "out", "override", "private",
    "protected", "public", "readonly", "static"]

/-- Passes modifiers and gives them. -/
def modifiers (words : List String) : Parser (List String) :=
  collect do
    unless ← atAny words do return none
    unless ← isModifier do return none
    let t ← token
    bump
    return some t.text

/-- Whether `get` or `set` at hand is followed by a property name, and passes it if so. -/
def eatAccessor (word : String) : Parser Bool := do
  unless ← at_ word do return false
  unless ← ahead (do advance; return (← at_ "[") || Token.isProperty (← token)) do return false
  bump
  return true

/-- Decorators in front of a class, a member or a parameter. -/
def decorators (g : Grammar) : Parser Bool := do
  let found ← at_ "@"
  repeatWhile do
    unless ← eat "@" do return false
    let _ ← inContext (fun c => { c with decorator := true }) (g .leftHand)
    return true
  return found

/-- A property name. Gives the name and place of a plain word. -/
def propertyName (g : Grammar) : Parser (Option (String × Span)) := do
  let t ← token
  match t.kind with
  | .string => advance; return none
  | .number => advance; return none
  | _ =>
    if ← at_ "[" then
      bump
      let _ ← allowIn (assignment g)
      expect "]"
      return none
    let found ← anyName
    return some found

/-- A property name, or a private one. -/
def memberName (g : Grammar) : Parser Unit := do
  if ← atKind .privateWord then advance
  else let _ ← propertyName g

end Parser

end ZodGen.Script
