import ZodGen.Script.Parser.Pattern

/-!
# Types
-/

namespace ZodGen.Script.Parser

/-- Whether a list of type arguments may open here. -/
def atOpenAngle : Parser Bool := atAny ["<", "<<"]

/-- Makes the first `<` of a longer mark the token at hand. -/
def splitAngle : Parser Unit := do
  let s ← get
  if s.token.kind == .mark && s.token.text == "<<" then
    settle (Token.firstAngle s.here s.token.newline)

/-- Types between angle brackets, at least one. -/
def typeArguments (g : Grammar) : Parser Unit := do
  let start ← place
  splitAngle
  expect "<"
  if ← at_ ">" then record start
  let _ ← separated ">" (g .type)
  expect ">"

/-- Type arguments on the same line, if there are any. -/
def typeArgumentsHere (g : Grammar) : Parser Unit := do
  if (← atOpenAngle) && !(← onNewLine) then typeArguments g

def typeParameter (g : Grammar) : Parser Unit := do
  repeatWhile do
    unless ← atAny ["const", "in", "out"] do return false
    unless ← ahead (do advance; atBinding) do return false
    bump
    return true
  let (name, span) ← bindingName
  declare name span .ofType .block
  if ← eat "extends" then g .type
  if ← eat "=" then g .type

/-- Type parameters between angle brackets, if there are any. -/
def typeParameters (g : Grammar) : Parser Unit := do
  if ← at_ "<" then
    let start ← place
    bump
    if ← at_ ">" then record start
    let _ ← separated ">" (typeParameter g)
    expect ">"

/-- A type, or a statement about a parameter such as `x is T`. -/
def typeOrPredicate (g : Grammar) : Parser Unit := do
  if (← atBinding) && (← ahead (do advance; return (← at_ "is") && !(← onNewLine))) then
    advance
    bump
  g .type

/-- A return type behind a colon, if there is one. -/
def returnAnnotation (g : Grammar) : Parser Unit := do
  if ← eat ":" then typeOrPredicate g

/-- Parameters and return type of a member without body. -/
def signature (g : Grammar) : Parser Unit :=
  inScopeWith .block (do typeParameters g; parameters g) fun _ => returnAnnotation g

def functionType (g : Grammar) : Parser Unit := do
  let _ ← eat "abstract"
  let _ ← eat "new"
  inScopeWith .block (do typeParameters g; parameters g) fun _ => do
    expect "=>"
    typeOrPredicate g

/-- Whether the parenthesis at hand opens the parameters of a function type. -/
def opensParameters (g : Grammar) : Parser Bool := ahead do
  bump
  if ← atAny [")", "..."] then return true
  let _ ← modifiers modifierWords
  let started ← if (← atBinding) || (← at_ "this") then do
      advance
      pure true
    else if ← atAny ["[", "\x7b"] then do
      let before := (← get).faults.length
      let _ ← g (.pattern .block)
      pure ((← get).faults.length == before)
    else pure false
  unless started do return false
  if ← atAny [":", ",", "?", "="] then return true
  unless ← eat ")" do return false
  at_ "=>"

def startsFunctionType (g : Grammar) : Parser Bool := do
  if ← atAny ["<", "new"] then return true
  if ← at_ "(" then return ← opensParameters g
  if ← at_ "abstract" then return ← ahead (do advance; at_ "new")
  return false

/-- Reserved words that may start a type. -/
def reservedTypeStarts : List String :=
  ["this", "typeof", "null", "true", "false", "void", "new", "import", "function"]

def startsType : Parser Bool := do
  let t ← token
  match t.kind with
  | .word => return !reservedWords.contains t.text || reservedTypeStarts.contains t.text
  | .string => return true
  | .number => return true
  | .template _ _ => return true
  | .mark => return ["\x7b", "[", "<", "|", "&", "*", "?", "!", "...", "(", "-"].contains t.text
  | _ => return false

/-- The dotted rest of a name; gives whether there is any. -/
def dottedRest : Parser Bool := do
  let dotted ← at_ "."
  repeatWhile do
    unless ← eat "." do return false
    let _ ← anyName
    return true
  return dotted

/-- A dotted name that is used in a type; `single` is the use of a name without dots. -/
def entityName (single dotted : Use) : Parser Unit := do
  let (name, span) ← anyName
  let isDotted ← dottedRest
  use name span (if isDotted then dotted else single)

/-- A type by name, with its arguments. -/
def typeReference (g : Grammar) : Parser Unit := do
  entityName .type .space
  typeArgumentsHere g

/-- `import("module").name<arguments>`. -/
def importType (g : Grammar) : Parser Unit := do
  bump
  expect "("
  g .type
  if ← eat "," then
    unless ← at_ ")" do
      let _ ← assignment g
      let _ ← eat ","
  expect ")"
  let _ ← dottedRest
  typeArgumentsHere g

/-- The type of a value. -/
def typeQuery (g : Grammar) : Parser Unit := do
  bump
  if ← at_ "import" then importType g
  else
    if ← at_ "this" then
      bump
      let _ ← dottedRest
    else entityName .typeOf .typeOf
    typeArgumentsHere g

/-- The end of a member: a comma, a semicolon or a line break. -/
def endMember : Parser Unit := do
  unless ← eat "," do endStatement

def startsIndexSignature : Parser Bool := do
  unless ← at_ "[" do return false
  ahead do
    bump
    if ← atAny ["...", "]"] then return true
    if (← atAny ["public", "private", "protected", "readonly", "static"]) then
      if ← ahead (do advance; atBinding) then return true
    unless ← atBinding do return false
    advance
    if ← atAny [":", ","] then return true
    unless ← eat "?" do return false
    atAny [":", ",", "]"]

/-- `[key: T]: U`. -/
def indexSignature (g : Grammar) : Parser Unit := do
  expect "["
  let _ ← separated "]" (do
    let _ ← anyName
    annotation g)
  expect "]"
  annotation g
  endMember

/-- The key of a member of an object type. Uses of values in a computed key stand for the types of
those values. -/
def typeMemberKey (g : Grammar) : Parser Unit := do
  let (_, items) ← capture (memberName g)
  emitAs .typeOf items

def typeMember (g : Grammar) : Parser Unit := do
  if ← atAny ["(", "<"] then
    signature g
    endMember
  else if (← at_ "new") && (← ahead (do advance; atAny ["(", "<"])) then
    bump
    signature g
    endMember
  else
    let _ ← modifiers modifierWords
    if ← eatAccessor "get" <||> eatAccessor "set" then
      typeMemberKey g
      signature g
      endMember
    else if ← startsIndexSignature then indexSignature g
    else
      typeMemberKey g
      let _ ← eat "?"
      if ← atAny ["(", "<"] then signature g else annotation g
      endMember

/-- Members between braces. -/
def typeMembers (g : Grammar) : Parser Unit := do
  expect "\x7b"
  repeatWhile do
    if (← at_ "\x7d") || (← atEnd) then return false
    typeMember g
    return true
  expect "\x7d"

def startsMappedType : Parser Bool := ahead do
  bump
  if ← atAny ["+", "-"] then
    advance
    return ← at_ "readonly"
  if ← at_ "readonly" then advance
  unless ← eat "[" do return false
  unless ← atBinding do return false
  advance
  at_ "in"

/-- `{ [K in T as U]: V }`. -/
def mappedType (g : Grammar) : Parser Unit := inScope .block do
  expect "\x7b"
  if ← atAny ["+", "-"] then bump
  let _ ← eat "readonly"
  expect "["
  let (name, span) ← bindingName
  declare name span .ofType .block
  expect "in"
  g .type
  if ← eat "as" then g .type
  expect "]"
  if ← atAny ["+", "-"] then bump
  let _ ← eat "?"
  annotation g
  endStatement
  expect "\x7d"

/-- Whether a name and a colon stand here, the colon perhaps behind `?`. -/
def startsLabel : Parser Bool := ahead do
  unless ← atName do return false
  advance
  let _ ← eat "?"
  at_ ":"

def tupleElement (g : Grammar) : Parser Unit := do
  let _ ← eat "..."
  if ← startsLabel then
    advance
    let _ ← eat "?"
    bump
    g .type
  else
    g .type
    let _ ← eat "?"

/-- Goes past a piece of a template. Only behind a tag may its escapes be malformed. Gives whether
it is the last piece. -/
def templatePiece (tagged : Bool) : Parser Bool := do
  let t ← token
  match t.kind with
  | .template last cooked =>
    advance
    unless tagged || cooked do record (t.span.start + 1)
    return last
  | _ => fault t.span.start

/-- The pieces of a template, with `hole` between them. -/
def templatePieces (tagged : Bool) (hole : Parser Unit) : Parser Unit := do
  unless ← templatePiece tagged do
    repeatWhile do
      hole
      unless ← at_ "\x7d" do fault (← place)
      let s ← get
      settle (Token.templateRest s.limit s.here)
      return !(← templatePiece tagged)

/-- Names of types that every script has. -/
def typeKeywords : List String :=
  ["any", "unknown", "string", "number", "bigint", "symbol", "boolean", "undefined", "never",
    "object", "intrinsic"]

/-- A type without postfix. Any number of `!` may stand in front of it. `?` stands in front of a
type, or for one. -/
def primaryType (g : Grammar) : Parser Unit := do
  repeatWhile (eat "!")
  let t ← token
  match t.kind with
  | .string => advance
  | .number => advance
  | .template _ _ => templatePieces false (g .type)
  | .mark =>
    match t.text with
    | "\x7b" => if ← startsMappedType then mappedType g else typeMembers g
    | "[" =>
      bump
      let _ ← separated "]" (tupleElement g)
      expect "]"
    | "(" =>
      bump
      g .type
      expect ")"
    | "-" =>
      if ← ahead (do advance; atKind .number) then
        bump
        advance
      else unexpected
    | "?" =>
      bump
      unless ← atAny [",", "\x7d", ")", ">", "=", "|"] do g .type
    | _ => unexpected
  | .word =>
    match t.text with
    | "this" =>
      bump
      if (← at_ "is") && !(← onNewLine) then
        bump
        g .type
    | "typeof" => typeQuery g
    | "import" => importType g
    | "asserts" =>
      if ← ahead (do advance; return !(← onNewLine) && ((← atBinding) || (← at_ "this"))) then
        bump
        advance
        if ← eat "is" then g .type
      else typeReference g
    | "true" => bump
    | "false" => bump
    | "null" => bump
    | "void" => bump
    | word =>
      if typeKeywords.contains word && !(← ahead (do advance; at_ ".")) then bump
      else typeReference g
  | _ => unexpected

/-- A type with its postfixes: lists, indexed types. -/
def postfixType (g : Grammar) : Parser Unit := do
  primaryType g
  repeatWhile do
    if ← onNewLine then return false
    if ← eat "!" then return true
    if ← at_ "?" then
      if ← ahead (do bump; startsType) then return false
      bump
      return true
    unless ← eat "[" do return false
    unless ← at_ "]" do g .type
    expect "]"
    return true

/-- The constraint of an inferred type, unless it starts a conditional type. -/
def inferConstraint (g : Grammar) : Parser Unit := do
  let _ ← attempt do
    expect "extends"
    inContext (fun c => { c with noConditional := true }) (g .type)
    if !(← context).noConditional && (← at_ "?") then unexpected

/-- A type with operators in front of it. -/
def operatorType (g : Grammar) : Parser Unit := do
  repeatWhile do
    unless ← atAny ["keyof", "unique", "readonly"] do return false
    bump
    return true
  if ← at_ "infer" then
    bump
    let (name, span) ← bindingName
    declare name span .ofType .conditional
    inferConstraint g
  else
    inContext (fun c => { c with noConditional := false }) (postfixType g)

/-- Types joined by a mark, which may also stand in front. -/
def joinedType (mark : String) (part : Parser Unit) : Parser Unit := do
  let _ ← eat mark
  part
  repeatWhile do
    unless ← eat mark do return false
    part
    return true

def typeExpression (g : Grammar) : Parser Unit := do
  if ← startsFunctionType g then functionType g
  else
    joinedType "|" (joinedType "&" (operatorType g))
    if !(← context).noConditional && (← at_ "extends") && !(← onNewLine) then
      bump
      inScope .conditional do
        inContext (fun c => { c with noConditional := true }) (g .type)
        expect "?"
        inContext (fun c => { c with noConditional := false }) (g .type)
      expect ":"
      inContext (fun c => { c with noConditional := false }) (g .type)

end ZodGen.Script.Parser
