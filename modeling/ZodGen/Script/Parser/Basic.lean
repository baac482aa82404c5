import ZodGen.Script.Scope

/-!
# The state of the script parser

The parser reads one token ahead. It records declarations, uses and scopes as it meets them, and the
places of faults. Most faults end the parse; some are only recorded, and the parse goes on to find
out whether the text has an earlier one. `firstFault` says which of them is reported: a fault in a
token, then a recorded fault, then the one that ended the parse.
-/

namespace ZodGen.Script

/-- What the grammar allows at a place. -/
structure Context where
  /-- `in` is an operator. -/
  allowIn : Bool := true
  /-- Inside a generator. -/
  allowYield : Bool := false
  /-- Inside an async function, or at the top level. -/
  allowAwait : Bool := true
  /-- Inside a function. -/
  allowReturn : Bool := false
  /-- Inside a declaration without implementation. -/
  ambient : Bool := false
  /-- Inside a decorator, where brackets do not continue an expression. -/
  decorator : Bool := false
  /-- Conditional types need parentheses. -/
  noConditional : Bool := false

structure State where
  /-- More than the bytes of the text; it bounds loops. -/
  limit : Nat
  token : Token
  /-- Where the token starts, and what follows it. -/
  here : Cursor
  rest : Cursor
  /-- Where the token before ends. -/
  lastStop : Nat
  context : Context
  /-- Faults in tokens, the latest first. -/
  tokenFaults : List Nat
  /-- Recorded faults, the latest first. -/
  faults : List Nat
  /-- Defaults of shorthand properties that only a pattern may have. -/
  loneDefaults : List Nat
  /-- Items of the scope at hand, the latest first. -/
  items : List Item

/-- A parser fails with the place of the fault to report. -/
abbrev Parser := StateT State (Except Nat)

namespace Parser

variable {α β : Type}

/-- The fault to report when the parse ends at `last`. -/
def firstFault (s : State) (last : Nat) : Nat :=
  (s.tokenFaults.getLast?.or s.faults.getLast?).getD last

/-- Ends the parse with a fault. -/
def fault (place : Nat) : Parser α := do throw (firstFault (← get) place)

/-- Records a fault and goes on. -/
def record (place : Nat) : Parser Unit :=
  modify fun s => { s with faults := place :: s.faults }

def token : Parser Token := do return (← get).token

def context : Parser Context := do return (← get).context

/-- Where the token at hand starts. -/
def place : Parser Nat := do return (← get).token.span.start

/-- Where the token before ends. -/
def lastStop : Parser Nat := do return (← get).lastStop

/-- The range from a place to the end of the last token. -/
def spanFrom (start : Nat) : Parser Span := do return ⟨start, ← lastStop⟩

/-- Ends the parse at the token at hand. A fault in that token is the one to report, but only after
recorded faults. -/
def unexpected : Parser α := do
  let s ← get
  match s.token.kind, s.tokenFaults with
  | .eof, f :: fs => throw (firstFault { s with tokenFaults := fs } f)
  | .fault, f :: fs => throw (firstFault { s with tokenFaults := fs } f)
  | _, _ => fault s.token.span.start

/-- Takes a token as the one at hand. -/
def settle (f : Token.Found) : Parser Unit :=
  modify fun s =>
    { s with token := f.token, here := f.here, rest := f.rest,
             tokenFaults := f.faults.reverse ++ s.tokenFaults }

def advance : Parser Unit := do
  let s ← get
  set { s with lastStop := s.token.span.stop }
  settle (Token.next s.limit s.rest)

/-- Words with a meaning of their own somewhere in the grammar. -/
def keywords : List String :=
  ["abstract", "accessor", "any", "as", "assert", "asserts", "async", "await", "bigint", "boolean",
    "break", "case", "catch", "class", "const", "constructor", "continue", "debugger", "declare",
    "default", "defer", "delete", "do", "else", "enum", "export", "extends", "false", "finally",
    "for", "from", "function", "get", "global", "if", "implements", "import", "in", "infer",
    "instanceof", "interface", "intrinsic", "is", "keyof", "let", "meta", "module", "namespace",
    "never", "new", "null", "number", "object", "of", "out", "override", "package", "private",
    "protected", "public", "readonly", "require", "return", "satisfies", "set", "source", "static",
    "string", "super", "switch", "symbol", "target", "this", "throw", "true", "try", "type",
    "typeof", "undefined", "unique", "unknown", "using", "var", "void", "while", "with", "yield"]

/-- Words that are never names. -/
def reservedWords : List String :=
  ["break", "case", "catch", "class", "const", "continue", "debugger", "default", "delete", "do",
    "else", "enum", "export", "extends", "false", "finally", "for", "function", "if", "import",
    "in", "instanceof", "new", "null", "return", "super", "switch", "this", "throw", "true", "try",
    "typeof", "var", "void", "while", "with"]

/-- Goes past a token that is used as a keyword or mark. A keyword must not be spelled with an
escape. -/
def bump : Parser Unit := do
  let t ← token
  if t.escaped && keywords.contains t.text then record t.span.start
  advance

def Token.isText (t : Token) (text : String) : Bool :=
  (t.kind == .word || t.kind == .mark) && t.text == text

/-- Whether the token at hand spells `text` as a word or mark. -/
def at_ (text : String) : Parser Bool := do return Token.isText (← token) text

/-- Whether the token at hand spells one of the texts. -/
def atAny (texts : List String) : Parser Bool := do
  let t ← token
  return texts.any (Token.isText t)

def atKind (kind : Token.Kind) : Parser Bool := do return (← token).kind == kind

def atEnd : Parser Bool := atKind .eof

/-- Whether a line break stands before the token at hand. -/
def onNewLine : Parser Bool := do return (← token).newline

/-- Goes past the token if it spells `text`. -/
def eat (text : String) : Parser Bool := do
  if ← at_ text then
    bump
    return true
  return false

/-- Goes past the token, which must spell `text`. -/
def expect (text : String) : Parser Unit := do
  if ← at_ text then bump
  else fault (← place)

def Token.isName (t : Token) : Bool := t.kind == .word

/-- Whether a token may be the name of a binding. -/
def Token.isBinding (t : Token) : Bool := t.kind == .word && !reservedWords.contains t.text

def atBinding : Parser Bool := do return Token.isBinding (← token)

def atName : Parser Bool := do return Token.isName (← token)

/-- Finds something out about what follows and comes back. -/
def lookAhead (otherwise : α) (p : Parser α) : Parser α := fun s =>
  match p s with
  | .ok (a, _) => .ok (a, s)
  | .error _ => .ok (otherwise, s)

/-- Answers a question about what follows and comes back. A fault on the way is a `no`. -/
def ahead (p : Parser Bool) : Parser Bool := lookAhead false p

/-- Tries a parser; when it fails, nothing has happened. -/
def attempt (p : Parser α) : Parser (Option α) := fun s =>
  match p s with
  | .ok (a, s) => .ok (some a, s)
  | .error _ => .ok (none, s)

/-- Runs a parser in a changed context. -/
def inContext (change : Context → Context) (p : Parser α) : Parser α := do
  let saved ← context
  modify fun s => { s with context := change saved }
  let a ← p
  modify fun s => { s with context := saved }
  return a

def allowIn : Parser α → Parser α := inContext fun c => { c with allowIn := true }

/-- Repeats a step while it answers yes, at most `n` times. -/
def repeatUpTo (step : Parser Bool) : Nat → Parser Unit
  | 0 => return
  | n + 1 => do if ← step then repeatUpTo step n

/-- Repeats a step while it answers yes. Each round goes past a token, so the text bounds them. -/
def repeatWhile (step : Parser Bool) : Parser Unit := do
  repeatUpTo step (← get).limit

/-- Collects what a step gives until it gives nothing. -/
def collectUpTo (step : Parser (Option α)) : Nat → List α → Parser (List α)
  | 0, acc => return acc.reverse
  | n + 1, acc => do
    match ← step with
    | some a => collectUpTo step n (a :: acc)
    | none => return acc.reverse

def collect (step : Parser (Option α)) : Parser (List α) := do
  collectUpTo step (← get).limit []

/-- Whether a statement may end here: at `;`, `}`, the end, or after a line break. -/
def canEnd : Parser Bool := do
  return (← onNewLine) || (← atAny [";", "\x7d"]) || (← atEnd)

/-- Ends a statement, with or without a semicolon. -/
def endStatement : Parser Unit := do
  if ← canEnd then
    let _ ← eat ";"
  else
    fault (← lastStop)

/-! ## Lists -/

/-- The elements behind the first, which `acc` starts with, the latest first. -/
def separatedUpTo (close : String) (element : Parser α) :
    Nat → List α → Parser (List α × Option Nat)
  | 0, acc => return (acc.reverse, none)
  | n + 1, acc => do
    if ← at_ close then return (acc.reverse, none)
    unless ← at_ "," do fault (← place)
    let comma ← place
    bump
    if ← at_ close then return (acc.reverse, some comma)
    separatedUpTo close element n ((← element) :: acc)

/-- Elements with commas between them up to `close`, which is left at hand. Gives the elements and
the place of a comma behind the last of them. -/
def separated (close : String) (element : Parser α) : Parser (List α × Option Nat) := do
  if ← at_ close then return ([], none)
  let first ← element
  separatedUpTo close element (← get).limit [first]

/-! ## Names and scopes -/

/-- Adds an item to the scope at hand. -/
def emit (item : Item) : Parser Unit := modify fun s => { s with items := item :: s.items }

def declare (name : String) (span : Span) (meaning : Meaning) (reach : Reach) : Parser Unit :=
  emit (.declare name span meaning reach)

def use (name : String) (span : Span) (how : Use) : Parser Unit := emit (.use name span how)

/-- Runs a parser and takes the items it added, in order. -/
def capture (p : Parser α) : Parser (α × List Item) := do
  let saved := (← get).items
  modify fun s => { s with items := [] }
  let a ← p
  let inner := (← get).items.reverse
  modify fun s => { s with items := saved }
  return (a, inner)

/-- A use of a value as another use. -/
def asUse (how : Use) : Item → Item
  | .use name span .value => .use name span how
  | item => item

/-- Adds items to the scope at hand, with uses of values as other uses. -/
def emitAs (how : Use) (items : List Item) : Parser Unit := do
  for item in items do emit (asUse how item)

/-- Runs a parser in a scope of its own. -/
def inScope (kind : ScopeKind) (p : Parser α) : Parser α := do
  let (a, items) ← capture p
  emit (.scope kind [] items)
  return a

/-- Runs two parsers in one scope, the first as its header. -/
def inScopeWith (kind : ScopeKind) (header : Parser α) (body : α → Parser β) : Parser β := do
  let (a, front) ← capture header
  let (b, back) ← capture (body a)
  emit (.scope kind front back)
  return b

end Parser

end ZodGen.Script
