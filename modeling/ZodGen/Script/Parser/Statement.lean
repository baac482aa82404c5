import ZodGen.Script.Parser.ModuleItem

/-!
# Statements
-/

namespace ZodGen.Script.Parser

/-- A statement in its place, of which nothing is kept. -/
def subStatement (g : Grammar) (place : Place) : Parser Unit := do
  let _ ← g (.statement place)

/-- An expression in parentheses. -/
def condition (g : Grammar) : Parser Unit := do
  expect "("
  let _ ← allowIn (expression g)
  expect ")"

/-- Statements between braces in a scope of their own. -/
def block (g : Grammar) : Parser Unit := inScope .block (braced g)

def ifStatement (g : Grammar) : Parser Unit := do
  bump
  condition g
  subStatement g .branch
  if ← eat "else" then subStatement g .branch

def doStatement (g : Grammar) : Parser Unit := do
  bump
  subStatement g .single
  expect "while"
  condition g
  let _ ← eat ";"

/-- `while` and `with`. -/
def whileStatement (g : Grammar) : Parser Unit := do
  bump
  condition g
  subStatement g .single

/-- The condition and the step of a loop, from the first semicolon on. -/
def loopRest (g : Grammar) : Parser Unit := do
  expect ";"
  unless ← at_ ";" do
    let _ ← allowIn (expression g)
  expect ";"
  unless ← at_ ")" do
    let _ ← allowIn (expression g)

/-- What a loop runs over, from `in` or `of` on. -/
def loopOver (g : Grammar) : Parser Unit := do
  if ← eat "of" then
    let _ ← allowIn (assignment g)
  else
    expect "in"
    let _ ← allowIn (expression g)

/-- Whether variables are declared here in the head of a loop. -/
def startsLoopVariables : Parser Bool := do
  if ← atAny ["var", "const"] then return true
  if ← at_ "let" then
    return ← ahead (do advance; return (← atBinding) || (← atAny ["[", "\x7b"]))
  startsUsing

/-- Variables in the head of a loop. -/
def loopVariables (g : Grammar) : Parser Unit := do
  let kind ← variableKind?
  let ds ← match kind with
    | some kind => do
      bump
      inContext (fun c => { c with allowIn := false }) <|
        declarators g (reachOf kind) (kind == .const) false
    | none => do
      let _ ← eat "await"
      bump
      inContext (fun c => { c with allowIn := false }) (declarators g .block true false)
  if ← atAny ["in", "of"] then loopOver g
  else
    for d in ds do
      if let some start := d.missing then record start
    loopRest g

/-- The head of a loop between parentheses. -/
def loopHead (g : Grammar) : Parser Unit := do
  if ← at_ ";" then loopRest g
  else if ← startsLoopVariables then loopVariables g
  else
    let first ← inContext (fun c => { c with allowIn := false }) (expression g)
    if ← atAny ["in", "of"] then
      target first
      loopOver g
    else loopRest g

def forStatement (g : Grammar) : Parser Unit := do
  bump
  let _ ← eat "await"
  expect "("
  inScope .block do
    loopHead g
    expect ")"
    subStatement g .single

/-- `break` and `continue`, perhaps with a label. -/
def jumpStatement : Parser Unit := do
  bump
  unless ← canEnd do
    let _ ← bindingName
  endStatement

def returnStatement (g : Grammar) : Parser Unit := do
  unless (← context).allowReturn do record (← place)
  bump
  unless ← canEnd do
    let _ ← allowIn (expression g)
  endStatement

def throwStatement (g : Grammar) : Parser Unit := do
  let start ← place
  bump
  if ← onNewLine then record start
  let _ ← allowIn (expression g)
  endStatement

/-- The statements of a case. -/
def caseBody (g : Grammar) : Parser Unit := do
  expect ":"
  repeatWhile do
    if (← atAny ["case", "default", "\x7d"]) || (← atEnd) then return false
    subStatement g .list
    return true

def switchStatement (g : Grammar) : Parser Unit := do
  bump
  condition g
  expect "\x7b"
  inScope .block <| repeatWhile do
    if ← eat "case" then
      let _ ← allowIn (expression g)
      caseBody g
      return true
    if ← eat "default" then
      caseBody g
      return true
    unless (← at_ "\x7d") || (← atEnd) do unexpected
    return false
  expect "\x7d"

/-- `catch`, perhaps with what it binds. -/
def catchClause (g : Grammar) : Parser Unit := do
  bump
  inScopeWith .block
    (do
      if ← eat "(" then
        let _ ← g (.pattern .block)
        annotation g
        expect ")")
    fun _ => block g

def tryStatement (g : Grammar) : Parser Unit := do
  bump
  block g
  let bodyStop ← lastStop
  let hasCatch ← at_ "catch"
  if hasCatch then catchClause g
  let hasFinally ← eat "finally"
  if hasFinally then block g
  unless hasCatch || hasFinally do record bodyStop

/-- An expression as a statement, or a label with its statement. -/
def expressionStatement (g : Grammar) : Parser Statement := do
  let before := (← get).items
  match ← expression g, ← at_ ":" with
  | .name _ _, true =>
    -- The name is a label and no use.
    modify fun s => { s with items := before }
    bump
    subStatement g .single
    return .other
  | .text _, _ =>
    endStatement
    return .text
  | _, _ =>
    endStatement
    return .other

/-- Whether `let` at hand starts a declaration. -/
def letDeclares (place : Place) : Parser Bool := do
  if (← token).escaped then return false
  ahead do
    advance
    let t ← token
    if assignmentOperators.any (Token.isText t) then return false
    if (operatorLevel? t).isSome && !(← atAny ["as", "satisfies"]) then return false
    if ← atAny [".", "(", ";"] then return false
    return place == .list || (← at_ "[")

/-- A class behind its decorators, exported or not. No other declaration has any. -/
def decorated (g : Grammar) : Parser Statement := do
  let start ← place
  let _ ← decorators g
  if ← at_ "export" then exportDeclaration g
  else
    unless ← startsDeclaration do unexpected
    unless ← startsClass do record start
    declaration g

/-- A class, function or variable declaration, or another declaration known by its first words. -/
def declarationHere (g : Grammar) (place : Place) : Parser (Option Statement) := do
  let start ← Parser.place
  if ← at_ "class" then
    if place != .list then record start
    classDeclaration g
    return some .other
  if (← at_ "function") || (← startsAsyncFunction) then
    functionDeclaration g place true
    return some .other
  if ← at_ "let" then
    unless ← letDeclares place do return none
  if (← at_ "const") && (← ahead (do advance; at_ "enum")) then return some (← declaration g)
  if let some kind ← variableKind? then
    let found ← variableStatement g kind
    if place != .list && kind != .var then record start
    return some (.declares found)
  if ← startsUsing then
    usingVariables g
    return some .other
  if ← atAny ["import", "export"] then return none
  if ← startsDeclaration then return some (← declaration g)
  return none

def statement (g : Grammar) (place : Place) : Parser Statement := do
  let t ← token
  let done (p : Parser Unit) : Parser Statement := do p; return .other
  if t.kind == .mark || t.kind == .word then
    match t.text with
    | "\x7b" => return ← done (block g)
    | ";" => return ← done bump
    | "if" => return ← done (ifStatement g)
    | "do" => return ← done (doStatement g)
    | "while" => return ← done (whileStatement g)
    | "with" => return ← done (whileStatement g)
    | "for" => return ← done (forStatement g)
    | "break" => return ← done jumpStatement
    | "continue" => return ← done jumpStatement
    | "return" => return ← done (returnStatement g)
    | "throw" => return ← done (throwStatement g)
    | "switch" => return ← done (switchStatement g)
    | "try" => return ← done (tryStatement g)
    | "debugger" => return ← done (do bump; endStatement)
    | "@" => return ← decorated g
    | "export" => return ← exportDeclaration g
    | _ => pure ()
  if (← at_ "import") && !(← ahead (do advance; atAny [".", "("])) then
    importDeclaration g
    return .erased
  if let some found ← declarationHere g place then return found
  expressionStatement g

end ZodGen.Script.Parser
