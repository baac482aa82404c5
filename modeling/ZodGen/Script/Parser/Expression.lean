import ZodGen.Script.Parser.Class

/-!
# Expressions
-/

namespace ZodGen.Script.Parser

/-! ## Targets of assignments -/

/-- Whether an expression is a name or a property, perhaps in parentheses or with a type added. -/
def isReference : Expr → Bool
  | .name _ _ => true
  | .member _ => true
  | .paren inner _ => isReference inner
  | .cast inner _ => isReference inner
  | _ => false

/-- Ends the parse unless the expression is a name or a property. -/
def simpleTarget (e : Expr) : Parser Unit := do
  unless isReference e do fault e.span.start

mutual

/-- Ends the parse unless the expression can be assigned to, as a name, a property or a pattern. -/
def target : Expr → Parser Unit
  | .array items comma _ => targets comma items
  | .object values comma _ => targets comma values
  | e => simpleTarget e

/-- The parts of a pattern. Only the last may be a rest, with no comma behind it. -/
def targets (comma : Option Nat) : List Expr → Parser Unit
  | [] => return
  | .spread inner _ :: rest => do
    unless rest.isEmpty do fault inner.span.start
    target inner
    if let some comma := comma then record comma
    targets comma rest
  | .assign _ :: rest => targets comma rest
  | .withDefault span :: rest => do
    modify fun s => { s with loneDefaults := s.loneDefaults.filter (· != span.start) }
    targets comma rest
  | .hole :: rest => targets comma rest
  | e :: rest => do
    target e
    targets comma rest

end

/-! ## Primary expressions -/

/-- The arguments of a call between parentheses. -/
def arguments (g : Grammar) : Parser Unit := do
  expect "("
  let _ ← inContext (fun c => { c with allowIn := true, decorator := false }) <|
    separated ")" (do
      let _ ← eat "..."
      let _ ← assignment g)
  expect ")"

/-- A template with expressions in it. -/
def template (g : Grammar) (tagged : Bool) : Parser Unit :=
  templatePieces tagged (do let _ ← allowIn (expression g))

def atTemplate : Parser Bool := do
  match (← token).kind with
  | .template _ _ => return true
  | _ => return false

/-- An element of an array; nothing stands before a comma. -/
def arrayElement (g : Grammar) : Parser Expr := do
  let start ← place
  if ← at_ "," then return .hole
  if ← eat "..." then
    let inner ← assignment g
    return .spread inner (← spanFrom start)
  assignment g

def arrayExpression (g : Grammar) : Parser Expr := do
  let start ← place
  expect "["
  let (items, comma) ← inContext (fun c => { c with allowIn := true, decorator := false }) <|
    separated "]" (arrayElement g)
  expect "]"
  return .array items comma (← spanFrom start)

/-- Whether the token at hand can be a name that is used as a value. -/
def atValueName : Parser Bool := do
  let c ← context
  let t ← token
  return Token.isBinding t && !(c.allowAwait && t.text == "await") &&
    !(c.allowYield && t.text == "yield")

/-- A property of an object. Gives its value, as far as it can be a part of a pattern. -/
def objectProperty (g : Grammar) : Parser Expr := do
  let start ← place
  if ← eat "..." then
    let inner ← assignment g
    return .spread inner (← spanFrom start)
  let words ← modifiers modifierWords
  if ← eatAccessor "get" <||> eatAccessor "set" then
    let _ ← propertyName g
    functionTail g false false none
    return .other (← spanFrom start)
  let isGenerator ← eat "*"
  let isValue ← atValueName
  let name ← propertyName g
  if isGenerator || (← atAny ["(", "<"]) then
    if words.any (· != "async") then record start
    functionTail g (words.contains "async") isGenerator none
    return .other (← spanFrom start)
  unless words.isEmpty do record start
  match isValue && !(← at_ ":"), name with
  | true, some (name, span) =>
    use name span .value
    if ← eat "=" then
      let _ ← allowIn (assignment g)
      modify fun s => { s with loneDefaults := start :: s.loneDefaults }
      return .withDefault (← spanFrom start)
    return .name name span
  | _, _ =>
    expect ":"
    allowIn (assignment g)

def objectExpression (g : Grammar) : Parser Expr := do
  let start ← place
  expect "\x7b"
  let (values, comma) ← inContext (fun c => { c with allowIn := true, decorator := false }) <|
    separated "\x7d" (objectProperty g)
  expect "\x7d"
  return .object values comma (← spanFrom start)

def parenthesized (g : Grammar) : Parser Expr := do
  let start ← place
  expect "("
  let (items, comma) ← inContext (fun c => { c with allowIn := true, decorator := false }) <|
    separated ")" (assignment g)
  if let some comma := comma then fault comma
  expect ")"
  let span ← spanFrom start
  match items with
  | [] => fault start
  | [e] => return .paren e span
  | _ => return .paren (.other span) span

/-- `new` with what it makes and its arguments. -/
def newExpression (g : Grammar) : Parser Expr := do
  let start ← place
  expect "new"
  if ← eat "." then
    unless ← at_ "target" do fault start
    bump
    return .other (← spanFrom start)
  let made ← place
  let (_, isOptional) ← g .member
  if ← at_ "(" then arguments g
  if isOptional then record made
  return .other (← spanFrom start)

/-- `import.meta` or `import(…)`. -/
def importExpression (g : Grammar) : Parser Expr := do
  let start ← place
  expect "import"
  if ← eat "." then
    unless ← atAny ["meta", "source", "defer"] do fault start
    if ← eat "meta" then return .other (← spanFrom start)
    bump
  expect "("
  if ← at_ ")" then fault start
  let _ ← allowIn <| separated ")" (assignment g)
  expect ")"
  return .other (← spanFrom start)

/-- An expression without members, calls and operators. -/
def primary (g : Grammar) : Parser Expr := do
  let t ← token
  match t.kind with
  | .string => advance; return .text t.span
  | .number => advance; return .other t.span
  | .template _ _ =>
    template g false
    return .other (← spanFrom t.span.start)
  | .word =>
    if ← startsAsyncFunction then return ← functionExpression g
    match t.text with
    | "function" => functionExpression g
    | "class" => classExpression g
    | "new" => newExpression g
    | "import" => importExpression g
    | "this" => bump; return .other t.span
    | "super" =>
      bump
      unless ← atAny [".", "[", "("] do record t.span.start
      return .other t.span
    | "null" => bump; return .other t.span
    | "true" => bump; return .other t.span
    | "false" => bump; return .other t.span
    | _ => valueName
  | .mark =>
    match t.text with
    | "(" => parenthesized g
    | "[" => arrayExpression g
    | "\x7b" => objectExpression g
    | "@" =>
      let _ ← decorators g
      let _ ← classExpression g
      return .other (← spanFrom t.span.start)
    | "/" => regex
    | "/=" => regex
    | _ => unexpected
  | _ => unexpected
where
  regex : Parser Expr := do
    let s ← get
    settle (Token.regex s.limit s.here s.token.newline)
    let t ← token
    if t.kind == .fault then unexpected
    advance
    return .other t.span

/-! ## Members and calls -/

/-- Binary operators by how tightly they bind. -/
def operatorLevels : List (List String) :=
  [["??"], ["||"], ["&&"], ["|"], ["^"], ["&"], ["==", "!=", "===", "!=="],
    ["<", ">", "<=", ">=", "instanceof", "in", "as", "satisfies"], ["<<", ">>", ">>>"],
    ["+", "-"], ["*", "/", "%"], ["**"]]

/-- The level of a binary operator, from one on. -/
def operatorLevel? (t : Token) : Option Nat :=
  (operatorLevels.findIdx? fun ops => ops.any (Token.isText t)).map (· + 1)

/-- Whether a binary operator stands here. -/
def atOperator : Parser Bool := do
  if (← at_ "in") && !(← context).allowIn then return false
  return (operatorLevel? (← token)).isSome

/-- Reserved words that may start an expression. -/
def expressionWords : List String :=
  ["this", "super", "null", "true", "false", "function", "class", "new", "delete", "typeof",
    "void", "import"]

/-- Marks that may start an expression. -/
def expressionMarks : List String :=
  ["(", "[", "\x7b", "/", "/=", "+", "-", "~", "!", "++", "--", "<", "@"]

def startsExpression : Parser Bool := do
  let t ← token
  match t.kind with
  | .word => return !reservedWords.contains t.text || expressionWords.contains t.text
  | .mark => return expressionMarks.contains t.text
  | .eof => return false
  | .fault => return false
  | _ => return true

/-- Type arguments of an expression, if what follows them shows that they are. -/
def typeArgumentsInExpression (g : Grammar) : Parser Bool := do
  unless ← atOpenAngle do return false
  let start ← place
  let found ← attempt do
    splitAngle
    expect "<"
    if ← at_ ">" then record start
    let _ ← separated ">" (g .type)
    let s ← get
    if ← at_ ">" then settle (Token.joinAngles s.here s.token.newline)
    expect ">"
    let follows ←
      if ← atTemplate then pure true
      else if ← at_ "(" then pure true
      else if ← atAny ["<", ">", "+", "-"] then pure false
      else pure ((← onNewLine) || (← atOperator) || !(← startsExpression))
    unless follows do fault (← place)
  return found.isSome

/-- The name of a property behind a dot. -/
def dottedName : Parser Unit := do
  if ← atKind .privateWord then advance
  else let _ ← anyName

def bracketed (g : Grammar) : Parser Unit := do
  expect "["
  let _ ← inContext (fun c => { c with allowIn := true, decorator := false }) (expression g)
  expect "]"

/-- One more member behind an expression, in which one may be optional already. Gives the expression
and whether the new member is optional. A template must not follow an optional member. -/
def memberStep (g : Grammar) (start : Nat) (left : Expr) (isOptional : Bool) :
    Parser (Option (Expr × Bool)) := do
  if ← eat "." then
    dottedName
    return some (.member (← spanFrom start), false)
  if (← at_ "?.") && (← ahead (do
      advance
      return (← atName) || (← atKind .privateWord) || (← at_ "[") || (← atTemplate))) then
    bump
    if ← at_ "[" then bracketed g
    else unless ← atTemplate do dottedName
    return some (.member (← spanFrom start), true)
  if (← at_ "[") && !(← context).decorator then
    bracketed g
    return some (.member (← spanFrom start), false)
  if (← at_ "!") && !(← onNewLine) then
    bump
    return some (.cast left (← spanFrom start), false)
  if ← atTemplate then
    let quasi ← place
    template g true
    if isOptional then record quasi
    return some (.other (← spanFrom start), false)
  if ← typeArgumentsInExpression g then
    return some (.applied left (← spanFrom start), false)
  return none

/-- Members behind an expression. Gives whether one of them is optional. -/
def membersUpTo (g : Grammar) (start : Nat) : Nat → Expr → Bool → Parser (Expr × Bool)
  | 0, left, isOptional => return (left, isOptional)
  | n + 1, left, isOptional => do
    match ← memberStep g start left isOptional with
    | some (left, found) => membersUpTo g start n left (isOptional || found)
    | none => return (left, isOptional)

/-- A primary expression with its members. -/
def memberExpression (g : Grammar) : Parser (Expr × Bool) := do
  let start ← place
  membersUpTo g start (← get).limit (← primary g) false

/-- Calls and members behind an expression. -/
def callsUpTo (g : Grammar) (start : Nat) : Nat → Expr → Bool → Parser (Expr × Bool)
  | 0, left, isOptional => return (left, isOptional)
  | n + 1, left, isOptional => do
    let (left, isOptional) ← membersUpTo g start (← get).limit left isOptional
    let found ← eat "?."
    if found && (← atOpenAngle) then typeArguments g
    if found || (← at_ "(") then
      arguments g
      callsUpTo g start n (.other (← spanFrom start)) (isOptional || found)
    else return (left, isOptional)

/-- A primary expression with members and calls. -/
def leftHandExpression (g : Grammar) : Parser Expr := do
  let start ← place
  let (left, isOptional) ← memberExpression g
  let (left, isOptional) ← callsUpTo g start (← get).limit left isOptional
  return if isOptional then .other left.span else left

/-! ## Operators -/

/-- An expression with `++` or `--`, or with neither. -/
def updateExpression (g : Grammar) : Parser Expr := do
  let start ← place
  if ← atAny ["++", "--"] then
    bump
    let e ← g .unary
    simpleTarget e
    return .other (← spanFrom start)
  let e ← leftHandExpression g
  if (← atAny ["++", "--"]) && !(← onNewLine) then
    simpleTarget e
    bump
    return .other (← spanFrom start)
  return e

/-- Whether a name, keyword or literal follows the word at hand on its line. -/
def operandFollows : Parser Bool := ahead do
  advance
  let t ← token
  return !t.newline && (t.kind == .word || t.kind == .string || t.kind == .number)

/-- A unary expression that is no update. -/
def simpleUnary (g : Grammar) : Parser Expr := do
  let start ← place
  if ← atAny ["+", "-", "~", "!", "delete", "typeof", "void"] then
    bump
    let _ ← g .simpleUnary
    return .unary (← spanFrom start)
  if ← at_ "<" then
    bump
    g .type
    expect ">"
    let inner ← g .simpleUnary
    return .cast inner (← spanFrom start)
  if (← at_ "await") && ((← context).allowAwait || (← operandFollows)) then
    unless (← context).allowAwait do record start
    bump
    let _ ← inContext (fun c => { c with allowAwait := true }) (g .simpleUnary)
    return .unary (← spanFrom start)
  updateExpression g

/-- Joins `>` with the marks behind it. -/
def joinAngles : Parser Unit := do
  if ← at_ ">" then
    let s ← get
    settle (Token.joinAngles s.here s.token.newline)

/-- The operator at hand, if it binds more tightly than `least`. -/
def operatorAbove (least : Nat) : Parser (Option (Nat × String)) := do
  joinAngles
  let t ← token
  match operatorLevel? t with
  | none => return none
  | some level =>
    if (t.text == "in" && !(← context).allowIn) ||
        ((t.text == "as" || t.text == "satisfies") && t.newline) then return none
    return if least < level || (t.text == "**" && least ≤ level) then some (level, t.text) else none

/-- Whether an expression is a logical one by another operator than `??`. -/
def isPlainLogical : Expr → Bool
  | .logical false _ => true
  | _ => false

/-- What two operands and their operator make. `??` must not stand beside `&&` and `||`, and an
unary expression not in front of `**`. -/
def binaryOf (operator : String) (left right : Expr) (span : Span) : Parser Expr := do
  match operator with
  | "??" =>
    if isPlainLogical left || isPlainLogical right then record span.start
    return .logical true span
  | "||" => return .logical false span
  | "&&" => return .logical false span
  | "**" =>
    if let .unary s := left then record s.start
    return .other span
  | _ => return .other span

/-- Operators behind an operand. -/
def operatorsUpTo (g : Grammar) (start least : Nat) : Nat → Expr → Parser Expr
  | 0, left => return left
  | n + 1, left => do
    match ← operatorAbove least with
    | none => return left
    | some (level, operator) =>
      bump
      if operator == "as" || operator == "satisfies" then
        g .type
        operatorsUpTo g start least n (.cast left (← spanFrom start))
      else
        let right ← g (.binary level)
        let e ← binaryOf operator left right (← spanFrom start)
        operatorsUpTo g start least n e

/-- Operands and operators that bind more tightly than `least`. -/
def binaryExpression (g : Grammar) (least : Nat) : Parser Expr := do
  let start ← place
  let left ←
    if (← atKind .privateWord) && (← context).allowIn then do
      advance
      expect "in"
      let _ ← g (.binary 8)
      pure (.other (← spanFrom start))
    else g .unary
  operatorsUpTo g start least (← get).limit left

/-! ## Assignments -/

/-- `yield` with what it gives. -/
def yieldExpression (g : Grammar) : Parser Expr := do
  let start ← place
  unless (← context).allowYield do record start
  bump
  inContext (fun c => { c with allowYield := true }) do
    unless ← onNewLine do
      let isDelegate ← eat "*"
      let ends ← atAny [";", "\x7d", ")", "]", ":", ",", "in"]
      if isDelegate || !(ends || (← atEnd)) then
        let _ ← assignment g
  return .other (← spanFrom start)

/-- Operators that assign. -/
def assignmentOperators : List String :=
  ["=", "+=", "-=", "*=", "/=", "%=", "<<=", ">>=", ">>>=", "&=", "|=", "^=", "**=", "&&=", "||=",
    "??="]

/-- What follows the first operand: an assignment, a condition, or nothing. -/
def assignmentRest (g : Grammar) (start : Nat) (left : Expr) (returnType : Bool) :
    Parser Expr := do
  if ← atAny assignmentOperators then
    if ← at_ "=" then target left else simpleTarget left
    bump
    let _ ← g (.assignment returnType)
    return .assign (← spanFrom start)
  unless ← eat "?" do return left
  let _ ← allowIn (g (.assignment false))
  expect ":"
  let _ ← g (.assignment returnType)
  return .other (← spanFrom start)

/-- An arrow function with parentheses, if one starts here. -/
def arrowHere (g : Grammar) (returnType : Bool) : Parser (Option Expr) := do
  match ← arrowSign with
  | .yes => return some (← parenthesizedArrow g returnType)
  | .maybe => possibleArrow g returnType
  | .no => return none

/-- An expression without commas. -/
def assignmentExpression (g : Grammar) (returnType : Bool) : Parser Expr := do
  if (← at_ "yield") && ((← context).allowYield || (← operandFollows)) then
    return ← yieldExpression g
  if let some arrow ← arrowHere g returnType then return arrow
  let start ← place
  if ← startsAsyncArrow then
    bump
    let (name, span) ← bindingName
    return ← simpleArrow g start name span true returnType
  let before := (← get).items
  let left ← g (.binary 0)
  match left, ← at_ "=>" with
  | .name name span, true =>
    -- The name is a parameter and no use.
    modify fun s => { s with items := before }
    simpleArrow g start name span false returnType
  | _, _ => assignmentRest g start left returnType

end ZodGen.Script.Parser
