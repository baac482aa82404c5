import ZodGen.Script.Parser.Type

/-!
# Functions
-/

namespace ZodGen.Script.Parser

/-- Statements up to a closing brace, which is left at hand. -/
def statements (g : Grammar) : Parser Unit :=
  repeatWhile do
    if (← at_ "\x7d") || (← atEnd) then return false
    let _ ← g (.statement .list)
    return true

/-- Statements between braces, in the scope at hand. -/
def braced (g : Grammar) : Parser Unit := do
  expect "\x7b"
  statements g
  expect "\x7d"

/-- The body of a function between braces. -/
def functionBody (g : Grammar) : Parser Unit :=
  inContext (fun c => { c with allowReturn := true }) (braced g)

/-- Runs a parser where `await` and `yield` are operators as the function at hand says. -/
def inFunction {α : Type} (isAsync isGenerator : Bool) : Parser α → Parser α :=
  inContext fun c => { c with allowIn := true, allowAwait := isAsync, allowYield := isGenerator }

/-- A function from its type parameters on. `self` is a name that only the function itself sees. A
function without body is a statement and ends like one. -/
def functionTail (g : Grammar) (isAsync isGenerator : Bool) (self : Option (String × Span)) :
    Parser Unit := do
  let hasBody ← inFunction isAsync isGenerator <|
    inScopeWith .body
      (do
        if let some (name, span) := self then declare name span .ofValue .block
        typeParameters g
        parameters g)
      fun _ => do
        returnAnnotation g
        if ← at_ "\x7b" then
          functionBody g
          return true
        return false
  unless hasBody do endStatement

/-- A function from its name on, where a name is required. -/
def functionName (required : Bool) : Parser (Option (String × Span)) := do
  if ← atBinding then return some (← bindingName)
  if required then
    if ← at_ "(" then record (← place)
    else if ← atName then fault (← place)
  return none

/-- `function`, perhaps behind `async`, and a star. Gives whether there is `async` and a star. -/
def functionHead : Parser (Bool × Bool) := do
  let isAsync ← eat "async"
  expect "function"
  let isGenerator ← eat "*"
  return (isAsync, isGenerator)

def functionExpression (g : Grammar) : Parser Expr := do
  let start ← place
  let (isAsync, isGenerator) ← functionHead
  let self ← inContext (fun c => { c with allowAwait := isAsync, allowYield := isGenerator }) <|
    functionName false
  functionTail g isAsync isGenerator self
  return .other (← spanFrom start)

/-- A function declaration. Directly under `if` its name is bound nowhere. -/
def functionDeclaration (g : Grammar) (place : Place) (nameRequired : Bool) : Parser Unit := do
  let start ← Parser.place
  let (isAsync, isGenerator) ← functionHead
  if place != .list && (isAsync || isGenerator) then record start
  let name ← functionName nameRequired
  if place != .branch then
    if let some (name, span) := name then declare name span .ofValue .block
  functionTail g isAsync isGenerator none

/-- Whether `async function` stands here on one line. -/
def startsAsyncFunction : Parser Bool := do
  unless ← at_ "async" do return false
  ahead do
    advance
    return (← at_ "function") && !(← onNewLine)

/-- The body of an arrow function, from its arrow on. -/
def arrowBody (g : Grammar) (isAsync returnType : Bool) : Parser Unit := do
  if ← onNewLine then record (← place)
  expect "=>"
  inContext (fun c => { c with allowAwait := isAsync, allowYield := false }) do
    if ← at_ "\x7b" then functionBody g
    else let _ ← g (.assignment returnType)

/-- An arrow function with a single name before its arrow. -/
def simpleArrow (g : Grammar) (start : Nat) (name : String) (span : Span)
    (isAsync returnType : Bool) : Parser Expr := do
  inScopeWith .body (declare name span .ofValue .block) fun _ => arrowBody g isAsync returnType
  return .other (← spanFrom start)

/-- Whether `async name =>` stands here on one line. -/
def startsAsyncArrow : Parser Bool := do
  unless ← at_ "async" do return false
  ahead do
    advance
    if (← onNewLine) || !(← atBinding) then return false
    advance
    return !(← onNewLine) && (← at_ "=>")

/-- How sure it is that an arrow function with parentheses starts here. -/
inductive ArrowSign where
  | yes
  | maybe
  | no
  deriving DecidableEq

/-- What follows the first name in the parentheses of what may be an arrow function. -/
def signAfterName : Parser ArrowSign := do
  if ← at_ ":" then return .yes
  if ← eat "?" then
    return if ← atAny [":", ",", "=", ")"] then .yes else .no
  return if ← atAny [",", "=", ")"] then .maybe else .no

/-- What follows an opening parenthesis. -/
def signAfterParen : Parser ArrowSign := do
  if ← eat ")" then
    if ← at_ ":" then return .maybe
    return if ← atAny ["=>", "\x7b"] then .yes else .no
  if ← atAny ["[", "\x7b"] then return .maybe
  if ← at_ "..." then return .yes
  if (← atAny (modifierWords.erase "async")) && (← ahead (do advance; atBinding)) then
    return if ← ahead (do advance; at_ "as") then .no else .yes
  unless (← atBinding) || (← at_ "this") do return .no
  advance
  signAfterName

/-- Tells an arrow function with parentheses from other expressions by what comes next. -/
def arrowSign : Parser ArrowSign := do
  unless ← atAny ["(", "<", "async"] do return .no
  lookAhead .no do
    if ← eat "async" then
      if ← onNewLine then return .no
    if ← eat "(" then signAfterParen
    else if ← eat "<" then
      return if (← atBinding) || (← at_ "const") then .maybe else .no
    else return .no

/-- Type parameters, parameters and return type of an arrow function. Gives whether there is a
return type. -/
def arrowHead (g : Grammar) : Parser Bool := do
  typeParameters g
  parameters g
  if ← at_ ":" then
    returnAnnotation g
    return true
  return false

/-- What stands before the arrow of an arrow function with parentheses: whether it is async, whether
there is a return type, and what the parameters say about names. -/
def parenthesizedHead (g : Grammar) : Parser (Bool × Bool × List Item) := do
  let isAsync ← eat "async"
  let (hasType, items) ← capture <|
    inContext (fun c => { c with allowAwait := isAsync, allowYield := false }) (arrowHead g)
  return (isAsync, hasType, items)

/-- An arrow function from its arrow on; `front` comes from its head. -/
def arrowFrom (g : Grammar) (start : Nat) (isAsync returnType : Bool) (front : List Item) :
    Parser Expr := do
  let (_, back) ← capture (arrowBody g isAsync returnType)
  emit (.scope .body front back)
  return .other (← spanFrom start)

def parenthesizedArrow (g : Grammar) (returnType : Bool) : Parser Expr := do
  let start ← place
  let (isAsync, _, front) ← parenthesizedHead g
  arrowFrom g start isAsync returnType front

/-- An arrow function, unless its head turns out to be something else. Where a return type is not
allowed, a head that has one needs a colon behind its body. -/
def possibleArrow (g : Grammar) (returnType : Bool) : Parser (Option Expr) := do
  let saved ← get
  let head ← attempt do
    let head ← parenthesizedHead g
    unless ← at_ "=>" do fault (← place)
    return head
  match head with
  | none => return none
  | some (isAsync, hasType, front) =>
    let arrow ← arrowFrom g saved.token.span.start isAsync returnType front
    if !returnType && hasType && !(← at_ ":") then
      set saved
      return none
    return some arrow

end ZodGen.Script.Parser
