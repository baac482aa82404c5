import ZodGen.Script.Parser.Goal

/-!
# Binding patterns and parameters
-/

namespace ZodGen.Script.Parser

/-- A default value, if there is one. -/
def initializer (g : Grammar) : Parser Unit := do
  if ← eat "=" then
    let _ ← allowIn (assignment g)

/-- A pattern with its type and default. -/
def patternWithDefault (g : Grammar) (reach : Reach) : Parser Unit := do
  let _ ← g (.pattern reach)
  let _ ← eat "?"
  annotation g
  initializer g

/-- Elements with commas between them up to `close`, of which one behind `...` must be the last. -/
def elementsWithRest (close : String) (element rest : Parser Unit) : Nat → Option Nat → Parser Unit
  | 0, _ => return
  | n + 1, restAt => do
    if ← at_ close then return
    if let some start := restAt then record start
    let start ← place
    let isRest ← eat "..."
    if isRest then rest else element
    let restAt := if isRest then some start else restAt
    if ← at_ close then return
    let comma ← place
    unless ← at_ "," do fault comma
    bump
    if ← at_ close then
      if restAt.isSome && !(← context).ambient then record comma
      return
    elementsWithRest close element rest n restAt

def patternProperty (g : Grammar) (reach : Reach) : Parser Unit := do
  let isBinding ← atBinding
  let name ← propertyName g
  if isBinding && !(← at_ ":") then
    match name with
    | some (name, span) =>
      declare name span .ofValue reach
      initializer g
    | none => unexpected
  else
    expect ":"
    patternWithDefault g reach

/-- An element of an array pattern; nothing stands before a comma. -/
def patternElement (g : Grammar) (reach : Reach) : Parser Unit := do
  unless ← at_ "," do patternWithDefault g reach

/-- What stands behind `...` in a pattern. -/
def patternRest (g : Grammar) (reach : Reach) : Parser Unit := do
  let _ ← g (.pattern reach)
  annotation g

/-- A binding pattern without type and default. -/
def pattern (g : Grammar) (reach : Reach) : Parser Pattern := do
  let start ← place
  if ← eat "\x7b" then
    elementsWithRest "\x7d" (patternProperty g reach) (patternRest g reach) (← get).limit none
    expect "\x7d"
    return ⟨false, ← spanFrom start⟩
  if ← eat "[" then
    elementsWithRest "]" (patternElement g reach) (patternRest g reach) (← get).limit none
    expect "]"
    return ⟨false, ← spanFrom start⟩
  let (name, span) ← bindingName
  declare name span .ofValue reach
  return ⟨true, span⟩

/-- A parameter with its decorators and modifiers. -/
def parameter (g : Grammar) : Parser Unit := do
  let _ ← decorators g
  let _ ← modifiers modifierWords
  patternWithDefault g .block

/-- A parameter behind `...`. -/
def restParameter (g : Grammar) : Parser Unit := do
  patternRest g .block
  -- A default is read and refused.
  if ← at_ "=" then
    record (← place)
    initializer g

/-- The parameters of a function in their parentheses. -/
def parameters (g : Grammar) : Parser Unit := do
  expect "("
  if ← at_ "this" then
    bump
    annotation g
    unless ← at_ ")" do expect ","
  elementsWithRest ")" (do let _ ← decorators g; parameter g) (restParameter g) (← get).limit none
  expect ")"

end ZodGen.Script.Parser
