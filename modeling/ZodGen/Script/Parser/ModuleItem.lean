import ZodGen.Script.Parser.Declaration

/-!
# Imports and exports
-/

namespace ZodGen.Script.Parser

/-- The name of a module, quoted. -/
def moduleName : Parser Unit := do
  unless ← atKind .string do unexpected
  advance

/-- Attributes of an import, `with { type: "json" }`. -/
def attributes (g : Grammar) : Parser Unit := do
  if (← at_ "with") || ((← at_ "assert") && !(← onNewLine)) then
    bump
    expect "\x7b"
    let _ ← separated "\x7d" (do
      let _ ← propertyName g
      expect ":"
      moduleName)
    expect "\x7d"

/-- A name in a list of imports or exports: whether it is quoted, its text and its place. -/
structure ModuleName where
  quoted : Bool
  text : String
  span : Span

def atModuleName : Parser Bool := do return (← atName) || (← atKind .string)

def readModuleName : Parser ModuleName := do
  unless ← atModuleName do unexpected
  let t ← token
  advance
  return ⟨t.kind == .string, t.text, t.span⟩

/-- An entry of a list of imports or exports: whether it names a type only, the name on the side of
the other module or before `as`, and the name behind `as`. -/
structure Specifier where
  typeOnly : Bool
  first : ModuleName
  last : ModuleName

/-- The name behind `as`, if there is one. -/
def specifierRest (typeOnly : Bool) (first : ModuleName) : Parser Specifier := do
  if ← eat "as" then return ⟨typeOnly, first, ← readModuleName⟩
  return ⟨typeOnly, first, first⟩

/-- An entry of a list of imports or exports. `type` is a modifier unless it is itself the name. -/
def specifier : Parser Specifier := do
  let first ← readModuleName
  if first.quoted || first.text != "type" then return ← specifierRest false first
  if ← at_ "as" then
    let as₁ ← readModuleName
    if ← at_ "as" then
      let as₂ ← readModuleName
      if ← atModuleName then return ⟨true, as₁, ← readModuleName⟩
      return ⟨false, first, as₂⟩
    if ← atModuleName then return ⟨false, first, ← readModuleName⟩
    return ⟨true, as₁, as₁⟩
  if ← atModuleName then return ← specifierRest true (← readModuleName)
  return ⟨false, first, first⟩

/-- What a name imported as a type only stands for, and otherwise. -/
def importMeaning (typeOnly : Bool) : Meaning := if typeOnly then .ofTypeImport else .ofBoth

/-- Declares an imported name. -/
def declareImport (typeOnly : Bool) (name : ModuleName) : Parser Unit := do
  if name.quoted || reservedWords.contains name.text then record name.span.start
  declare name.text name.span (importMeaning typeOnly) .block

/-- Imported names between braces. -/
def importList (typeOnly : Bool) : Parser Unit := do
  expect "\x7b"
  let (entries, _) ← separated "\x7d" specifier
  expect "\x7d"
  for entry in entries do declareImport (typeOnly || entry.typeOnly) entry.last

/-- Imported names behind a default import or in its place. -/
def importNames (typeOnly : Bool) : Parser Unit := do
  if ← eat "*" then
    expect "as"
    let (name, span) ← bindingName
    declare name span (importMeaning typeOnly) .block
  else importList typeOnly

/-- `from` and the name of the module, to the end of the statement. -/
def importSource (g : Grammar) : Parser Unit := do
  expect "from"
  moduleName
  attributes g
  endStatement

/-- `= require("module")` or `= A.B` behind an imported name. -/
def importEquals (name : String) (span : Span) (typeOnly : Bool) : Parser Unit := do
  declare name span (importMeaning typeOnly) .block
  expect "="
  if (← at_ "require") && (← ahead (do advance; at_ "(")) then
    bump
    expect "("
    moduleName
    expect ")"
  else
    let (name, span) ← bindingName
    use name span .value
    let _ ← dottedRest
  endStatement

/-- Whether `type` at hand says that only types are imported. -/
def importsTypes : Parser Bool := do
  unless ← at_ "type" do return false
  ahead do
    bump
    if ← atAny ["*", "\x7b"] then return true
    unless ← atBinding do return false
    if ← at_ "from" then return ← ahead (do bump; atAny ["from", "="])
    return true

/-- Whether a word at hand says when the module is run: `defer * as name` or `source name from`. -/
def importsInPhase : Parser Bool := do
  if ← at_ "defer" then return ← ahead (do bump; at_ "*")
  unless ← at_ "source" do return false
  ahead do
    bump
    unless ← atBinding do return false
    advance
    at_ "from"

/-- The names of an import from the first on, and where they come from. -/
def importClause (g : Grammar) (typeOnly : Bool) : Parser Unit := do
  if ← atBinding then
    let (name, span) ← bindingName
    if !(← atAny [",", "from"]) then return ← importEquals name span typeOnly
    declare name span (importMeaning typeOnly) .block
    if ← eat "," then importNames typeOnly
  else importNames typeOnly
  importSource g

/-- An import from its keyword on. -/
def importDeclaration (g : Grammar) : Parser Unit := do
  bump
  if ← atKind .string then
    moduleName
    attributes g
    endStatement
    return
  let typeOnly ← importsTypes
  if typeOnly || (← importsInPhase) then bump
  importClause g typeOnly

/-- Names between braces that are exported. Without a module they are uses. -/
def exportList (g : Grammar) (typeOnly : Bool) : Parser Unit := do
  expect "\x7b"
  let (entries, _) ← separated "\x7d" specifier
  expect "\x7d"
  if ← eat "from" then
    moduleName
    attributes g
  else
    for entry in entries do
      if entry.first.quoted || reservedWords.contains entry.first.text then
        record entry.first.span.start
      use entry.first.text entry.first.span (if typeOnly || entry.typeOnly then .type else .any)
  endStatement

/-- `* from "module"` or `* as name from "module"`. -/
def exportAll (g : Grammar) : Parser Unit := do
  expect "*"
  if ← eat "as" then
    let _ ← readModuleName
  importSource g

/-- An expression that is exported. A single name is exported as whatever it is. -/
def exportedExpression (g : Grammar) : Parser Unit := do
  let (value, items) ← capture (assignment g)
  emitAs (if value.isName then .any else .value) items

/-- What is exported as default. -/
def exportDefault (g : Grammar) : Parser Unit := do
  let decorated ← decorators g
  if ← at_ "class" then classDeclaration g
  else if (← at_ "abstract") &&
      (← ahead (do advance; return (← at_ "class") && !(← onNewLine))) then
    bump
    classDeclaration g
  else if decorated then unexpected
  else if (← at_ "interface") &&
      (← ahead (do advance; return (← atBinding) && !(← onNewLine))) then
    interfaceDeclaration g
  else if (← at_ "function") || (← startsAsyncFunction) then functionDeclaration g .list false
  else
    exportedExpression g
    endStatement

/-- An export from its keyword on. -/
def exportDeclaration (g : Grammar) : Parser Statement := do
  bump
  if ← eat "=" then
    exportedExpression g
    endStatement
    return .other
  if ← at_ "import" then
    importDeclaration g
    return .other
  if (← at_ "as") && (← ahead (do advance; at_ "namespace")) then
    bump
    bump
    let _ ← anyName
    endStatement
    return .other
  if ← eat "default" then
    exportDefault g
    return .other
  if ← at_ "*" then
    exportAll g
    return .other
  if ← at_ "\x7b" then
    exportList g false
    return .other
  if (← at_ "type") && (← ahead (do advance; atAny ["*", "\x7b"])) then
    bump
    if ← at_ "*" then exportAll g else exportList g true
    return .other
  let _ ← decorators g
  match ← declaration g with
  | .erased => return .erased
  | _ => return .other

end ZodGen.Script.Parser
