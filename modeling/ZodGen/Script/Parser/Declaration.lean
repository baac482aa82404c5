import ZodGen.Script.Parser.Expression

/-!
# Declarations
-/

namespace ZodGen.Script.Parser

/-! ## Variables -/

/-- A declarator: its place, and where a missing initial value is to be reported. -/
structure Declarator where
  span : Span
  missing : Option Nat

/-- A declarator. A pattern needs an initial value, and so does a name that is `constant`. -/
def declarator (g : Grammar) (reach : Reach) (constant : Bool) : Parser Declarator := do
  let p ← g (.pattern reach)
  if p.isName && (← at_ "!") && !(← onNewLine) then bump
  let _ ← eat "?"
  annotation g
  let hasValue ← eat "="
  if hasValue then
    let _ ← assignment g
  let missing := !hasValue && (constant || !p.isName) && !(← context).ambient
  return ⟨← spanFrom p.span.start, if missing then some p.span.start else none⟩

/-- Declarators with commas between them. `strict` reports missing initial values. -/
def declarators (g : Grammar) (reach : Reach) (constant strict : Bool) :
    Parser (List Declarator) := do
  let one : Parser Declarator := do
    let d ← declarator g reach constant
    if strict then
      if let some start := d.missing then record start
    return d
  let first ← one
  let rest ← collect do
    unless ← eat "," do return none
    return some (← one)
  return first :: rest

/-- The kind of variables that the keyword at hand declares. -/
def variableKind? : Parser (Option VariableKind) := do
  let t ← token
  return [VariableKind.var, .let_, .const].find? fun kind => Token.isText t kind.keyword

def reachOf : VariableKind → Reach
  | .var => .hoisted
  | _ => .block

/-- Variables from their keyword on, to the end of the statement. -/
def variableStatement (g : Grammar) (kind : VariableKind) : Parser Declaration := do
  let start ← place
  bump
  let ds ← declarators g (reachOf kind) (kind == .const) true
  endStatement
  return ⟨kind, ← spanFrom start, ds.map (·.span)⟩

/-- Variables that are disposed of at the end of their block. -/
def usingVariables (g : Grammar) : Parser Unit := do
  let _ ← eat "await"
  bump
  let _ ← declarators g .block true true
  endStatement

/-- Whether `using name` or `await using name` stands here on one line. -/
def startsUsing : Parser Bool := do
  unless ← atAny ["using", "await"] do return false
  ahead do
    if ← eat "await" then
      if (← onNewLine) || !(← at_ "using") then return false
    bump
    return !(← onNewLine) && (← atBinding) && !(← at_ "of")

/-! ## Types -/

/-- An interface from its keyword on. -/
def interfaceDeclaration (g : Grammar) : Parser Unit := do
  bump
  let (name, span) ← bindingName
  declare name span .ofType .block
  inScope .block do
    typeParameters g
    repeatWhile do
      unless ← atAny ["extends", "implements"] do return false
      bump
      heritageTypes g
      return true
    typeMembers g

/-- A type alias from its keyword on. -/
def typeAlias (g : Grammar) : Parser Unit := do
  bump
  let (name, span) ← bindingName
  declare name span .ofType .block
  inScope .block do
    typeParameters g
    expect "="
    g .type
  endStatement

/-- Whether a token is a text by itself: a string or a template without expressions in it. -/
def Token.isConstantText (t : Token) : Bool :=
  match t.kind with
  | .string => true
  | .template last _ => last
  | _ => false

/-- The name of a member of an enumeration. Between brackets it must be a text. -/
def enumMemberName (g : Grammar) : Parser Unit := do
  let t ← token
  match t.kind with
  | .string => advance; declare t.text t.span .ofBoth .block
  | .word => advance; declare t.text t.span .ofBoth .block
  | _ =>
    expect "["
    let inner ← token
    let found ← assignment g
    expect "]"
    if Token.isConstantText inner && found.span == inner.span then
      declare inner.text inner.span .ofBoth .block
    else fault found.span.start

/-- An enumeration from its keyword on. -/
def enumDeclaration (g : Grammar) : Parser Unit := do
  bump
  let (name, span) ← bindingName
  declare name span .ofBoth .block
  expect "\x7b"
  inScope .block do
    let _ ← separated "\x7d" (do
      enumMemberName g
      initializer g)
  expect "\x7d"

/-! ## Namespaces -/

/-- Statements between braces; gives whether one of them is still there when the script runs. -/
def namespaceBlock (g : Grammar) : Parser Bool := do
  expect "\x7b"
  let found ← collect do
    if (← at_ "\x7d") || (← atEnd) then return none
    match ← g (.statement .list) with
    | .erased => return some false
    | _ => return some true
  expect "\x7d"
  return found.any id

/-- A namespace from its name on, with the namespaces inside that a dotted name stands for. Gives
whether it is still there when the script runs. -/
def namespaceFrom (g : Grammar) : Nat → Parser Bool
  | 0 => unexpected
  | n + 1 => do
    let (name, span) ← bindingName
    let (runs, items) ← capture do
      if ← eat "." then namespaceFrom g n else namespaceBlock g
    declare name span { value := runs, space := true } .block
    emit (.scope .body [] items)
    return runs

/-- A namespace, module or the global scope from its keyword on. -/
def namespaceDeclaration (g : Grammar) : Parser Bool := do
  if ← eat "global" then
    let runs ← inScope .body (namespaceBlock g)
    return runs
  bump
  if ← atKind .string then
    advance
    if ← at_ "\x7b" then
      let _ ← inScope .body (namespaceBlock g)
    else endStatement
    return true
  namespaceFrom g (← get).limit

/-! ## All declarations -/

/-- Whether a declaration starts here, perhaps behind modifiers on the same line. -/
def startsDeclarationUpTo : Nat → Parser Bool
  | 0 => return false
  | n + 1 => do
    if ← atAny ["var", "let", "const", "function", "class", "enum"] then return true
    if ← atAny ["interface", "type"] then
      advance
      return (← atBinding) && !(← onNewLine)
    if ← atAny ["module", "namespace"] then
      advance
      return !(← onNewLine) && ((← atBinding) || (← atKind .string))
    if ← at_ "global" then
      advance
      return (← at_ "\x7b") || (← atBinding) || (← at_ "export")
    if ← at_ "import" then
      advance
      return (← atKind .string) || (← atAny ["*", "\x7b"]) || (← atName)
    if ← atAny ["abstract", "accessor", "async", "declare", "private", "protected", "public",
        "readonly"] then
      advance
      if ← onNewLine then return false
      return ← startsDeclarationUpTo n
    if ← at_ "static" then
      advance
      return ← startsDeclarationUpTo n
    return false

def startsDeclaration : Parser Bool := do
  ahead (startsDeclarationUpTo (← get).limit)

/-- Whether a class starts here, perhaps an abstract one or one without implementation. -/
def startsClass : Parser Bool := ahead do
  let _ ← modifiers (modifierWords.erase "async")
  at_ "class"

/-- A declaration without modifiers. -/
def plainDeclaration (g : Grammar) : Parser Statement := do
  if ← at_ "interface" then
    interfaceDeclaration g
    return .erased
  if ← at_ "type" then
    typeAlias g
    return .erased
  if ← at_ "enum" then
    enumDeclaration g
    return .other
  if (← at_ "const") && (← ahead (do advance; at_ "enum")) then
    bump
    enumDeclaration g
    return .other
  if ← atAny ["module", "namespace", "global"] then
    return if ← namespaceDeclaration g then .other else .erased
  if ← at_ "class" then
    classDeclaration g
    return .other
  if ← at_ "function" then
    functionDeclaration g .list true
    return .other
  if ← startsAsyncFunction then
    functionDeclaration g .list true
    return .other
  match ← variableKind? with
  | some kind => return .declares (← variableStatement g kind)
  | none => unexpected

/-- A declaration with its modifiers. One behind `declare` has no implementation. -/
def declaration (g : Grammar) : Parser Statement := do
  let words ← modifiers (modifierWords.erase "async")
  if words.contains "declare" then
    match ← inContext (fun c => { c with ambient := true }) (plainDeclaration g) with
    | .erased => return .erased
    | _ => return .other
  else plainDeclaration g

end ZodGen.Script.Parser
