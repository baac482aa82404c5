import ZodGen.Script.Parser.Function

/-!
# Classes
-/

namespace ZodGen.Script.Parser

/-- A class or interface that is implemented or extended in a type. -/
def heritageType (g : Grammar) : Parser Unit := typeReference g

/-- Types with commas between them, up to something else. -/
def heritageTypes (g : Grammar) : Parser Unit := do
  heritageType g
  repeatWhile do
    unless ← eat "," do return false
    heritageType g
    return true

/-- A class that is extended. -/
def superClass (g : Grammar) : Parser Unit := do
  let _ ← g .leftHand
  if ← atOpenAngle then typeArguments g

/-- What a class extends and implements. Only one class can be extended. -/
def heritage (g : Grammar) : Parser Unit :=
  repeatWhile do
    if ← eat "extends" then
      superClass g
      repeatWhile do
        unless ← eat "," do return false
        record (← place)
        superClass g
        return true
      return true
    if ← eat "implements" then
      heritageTypes g
      return true
    return false

/-- Modifiers of a member; `static` in front of a brace is none. -/
def memberModifiers : Parser (List String) :=
  collect do
    unless ← atAny modifierWords do return none
    if (← at_ "static") && (← ahead (do advance; at_ "\x7b")) then return none
    unless ← isModifier do return none
    let t ← token
    bump
    return some t.text

/-- `static` and a block. -/
def staticBlock (g : Grammar) : Parser Unit := do
  bump
  inScope .body <|
    inContext (fun c => { c with allowAwait := true, allowYield := false, allowReturn := false })
      (braced g)

/-- A property from its type on. -/
def classProperty (g : Grammar) : Parser Unit := do
  annotation g
  if ← eat "=" then
    let _ ← inFunction false false (assignment g)
  endStatement

def classMember (g : Grammar) : Parser Unit := do
  let _ ← decorators g
  let words ← memberModifiers
  if (← at_ "static") && (← ahead (do advance; at_ "\x7b")) then staticBlock g
  else if ← eatAccessor "get" <||> eatAccessor "set" then
    memberName g
    functionTail g false false none
  else if ← startsIndexSignature then indexSignature g
  else
    let isGenerator ← eat "*"
    memberName g
    if !(← eat "?") then
      if !(← onNewLine) then
        let _ ← eat "!"
    if isGenerator || (← atAny ["(", "<"]) then
      functionTail g (words.contains "async") isGenerator none
    else classProperty g

/-- The members of a class between braces. -/
def classBody (g : Grammar) : Parser Unit := do
  expect "\x7b"
  repeatWhile do
    if (← at_ "\x7d") || (← atEnd) then return false
    unless ← eat ";" do classMember g
    return true
  expect "\x7d"

/-- A class from its type parameters on; `self` is a name that only the class itself sees. -/
def classTail (g : Grammar) (self : Option (String × Span)) : Parser Unit :=
  inScope .block do
    if let some (name, span) := self then declare name span .ofBoth .block
    typeParameters g
    heritage g
    classBody g

/-- The name of a class, if there is one. -/
def className : Parser (Option (String × Span)) := do
  if (← atBinding) && !(← at_ "implements") then return some (← bindingName)
  return none

/-- A class declaration from `class` on. -/
def classDeclaration (g : Grammar) : Parser Unit := do
  expect "class"
  if let some (name, span) ← className then declare name span .ofBoth .block
  classTail g none

/-- A class expression from `class` on. -/
def classExpression (g : Grammar) : Parser Expr := do
  let start ← place
  expect "class"
  classTail g (← className)
  return .other (← spanFrom start)

end ZodGen.Script.Parser
