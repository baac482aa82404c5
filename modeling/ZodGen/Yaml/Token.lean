import ZodGen.Yaml.Scalar
import ZodGen.Yaml.Tag

/-!
# Tokens of a YAML text

`Token.ofText?` cuts a text into tokens. Block collections open and close by indentation, so their
tokens have no characters of their own. That something was the key of a mapping shows only at the
colon behind it; until then its place is kept as a candidate, and the tokens that open the mapping
and mark the key are put in there. A candidate must stand on the line of its colon, and no more than
1024 characters before it. One that stands where a key of the mapping around is due must turn out to
be one.
-/

namespace ZodGen.Yaml

inductive Token where
  | streamEnd
  | directive (d : Directive)
  | documentStart
  | documentEnd
  | blockSequenceStart
  | blockMappingStart
  | blockEnd
  | flowSequenceStart
  | flowSequenceEnd
  | flowMappingStart
  | flowMappingEnd
  | blockEntry
  | flowEntry
  | key
  | value
  | aliasOf (name : String)
  | anchor (name : String)
  | tag (t : Tag)
  | scalar (isPlain : Bool) (text : String)

/-- A place that may turn out to be the start of a key. -/
structure Candidate where
  /-- A key is due here. -/
  required : Bool
  /-- How many tokens stand before it. -/
  number : Nat
  index : Nat
  line : Nat
  column : Nat

/-- How far a text is cut. -/
structure Scanner where
  /-- More than the characters of the text; it bounds recursion. -/
  limit : Nat
  cursor : Cursor
  /-- Tokens, the latest first. -/
  tokens : List Token := []
  count : Nat := 0
  /-- The column of the block collection at hand, and of those around it. -/
  indent : Int := -1
  indents : List Int := []
  /-- The candidate in the flow collection at hand, and in those around it and the block. -/
  candidate : Option Candidate := none
  outer : List (Option Candidate) := []
  /-- A key may start here. -/
  keyAllowed : Bool := true

/-- Puts an element behind the first `n` of a list. -/
def insertAfter {α : Type} (a : α) : Nat → List α → List α
  | 0, l => a :: l
  | _ + 1, [] => [a]
  | n + 1, b :: l => b :: insertAfter a n l

namespace Scanner

def inFlow (s : Scanner) : Bool := !s.outer.isEmpty

def emit (s : Scanner) (t : Token) : Scanner :=
  { s with tokens := t :: s.tokens, count := s.count + 1 }

/-- Puts a token in behind the first `number` ones. -/
def insert (s : Scanner) (number : Nat) (t : Token) : Scanner :=
  { s with tokens := insertAfter t (s.count - number) s.tokens, count := s.count + 1 }

def skip (s : Scanner) (n : Nat) : Scanner := { s with cursor := s.cursor.skip n }

/-- Gives up a candidate that is too far away. Fails if it had to be a key. -/
def expire (c : Cursor) : Option Candidate → Option (Option Candidate)
  | none => some none
  | some k =>
    if k.line < c.line || k.index + 1024 < c.index then
      if k.required then none else some none
    else some (some k)

def expireAll (s : Scanner) : Option Scanner := do
  let candidate ← expire s.cursor s.candidate
  let outer ← s.outer.mapM (expire s.cursor)
  some { s with candidate, outer }

/-- Gives up the candidate. Fails if it had to be a key. -/
def dropCandidate (s : Scanner) : Option Scanner :=
  match s.candidate with
  | some k => if k.required then none else some { s with candidate := none }
  | none => some s

/-- Takes this place as a candidate, if a key may start here. -/
def saveCandidate (s : Scanner) : Option Scanner :=
  if s.keyAllowed then do
    let s ← s.dropCandidate
    let c := s.cursor
    let required := !s.inFlow && s.indent == (c.column : Int)
    some { s with candidate := some ⟨required, s.count, c.index, c.line, c.column⟩ }
  else some s

/-- Opens a block collection at a column that is farther in, with its token behind the first
`number`. -/
def roll (s : Scanner) (column number : Nat) (t : Token) : Scanner :=
  if !s.inFlow && s.indent < column then
    { s.insert number t with indents := s.indent :: s.indents, indent := column }
  else s

/-- Closes the block collections that are farther in than a column. -/
def unrollFrom (column : Int) (s : Scanner) : List Int → Scanner
  | [] => { s with indents := [] }
  | i :: is =>
    if column < s.indent then unrollFrom column { s.emit .blockEnd with indent := i } is
    else { s with indents := i :: is }

def unroll (s : Scanner) (column : Int) : Scanner :=
  if s.inFlow then s else unrollFrom column s s.indents

/-- Passes blanks, comments and line breaks. A tab is not passed where a key may start. -/
def toToken : Nat → Scanner → Scanner
  | 0, s => s
  | limit + 1, s =>
    let c := s.cursor
    let c := if c.index == 0 && c.at_ byteOrderMark then c.skip 1 else c
    let c := c.skipWhile fun ch => ch == ' ' || ((s.inFlow || !s.keyAllowed) && ch == '\t')
    let c := if c.at_ '#' then c.skipWhile (!isBreak ·) else c
    let (found, next) := c.passBreak
    if found.isEmpty then { s with cursor := c }
    else toToken limit { s with cursor := next, keyAllowed := s.keyAllowed || !s.inFlow }

/-! ## Single tokens -/

def allow (s : Scanner) (b : Bool) : Scanner := { s with keyAllowed := b }

def documentToken (s : Scanner) (t : Token) : Option Scanner := do
  let s ← (s.unroll (-1)).dropCandidate
  some (((s.allow false).skip 3).emit t)

def directiveToken (s : Scanner) : Option Scanner := do
  let s ← (s.unroll (-1)).dropCandidate
  let (d, cursor) ← directive? s.limit s.cursor
  some ({ s.allow false with cursor }.emit (.directive d))

def flowStart (s : Scanner) (t : Token) : Option Scanner := do
  let s ← s.saveCandidate
  some (({ s.allow true with candidate := none, outer := s.candidate :: s.outer }.skip 1).emit t)

def flowEnd (s : Scanner) (t : Token) : Option Scanner := do
  let s ← s.dropCandidate
  let s := match s.outer with
    | [] => s
    | k :: ks => { s with candidate := k, outer := ks }
  some (((s.allow false).skip 1).emit t)

def flowEntry (s : Scanner) : Option Scanner := do
  let s ← s.dropCandidate
  some (((s.allow true).skip 1).emit .flowEntry)

/-- Opens a block collection here, unless in a flow collection. Fails where no key may start. -/
def rollHere (s : Scanner) (t : Token) : Option Scanner :=
  if s.inFlow then some s
  else if s.keyAllowed then some (s.roll s.cursor.column s.count t)
  else none

def blockEntry (s : Scanner) : Option Scanner := do
  let s ← (← s.rollHere .blockSequenceStart).dropCandidate
  some (((s.allow true).skip 1).emit .blockEntry)

def keyToken (s : Scanner) : Option Scanner := do
  let s ← (← s.rollHere .blockMappingStart).dropCandidate
  some (((s.allow (!s.inFlow)).skip 1).emit .key)

/-- A colon makes the candidate a key, if there is one. -/
def valueToken (s : Scanner) : Option Scanner := do
  let s ← match s.candidate with
    | some k =>
      let s := (s.insert k.number .key).roll k.column k.number .blockMappingStart
      some { s.allow false with candidate := none }
    | none => do
      let s ← s.rollHere .blockMappingStart
      some (s.allow (!s.inFlow))
  some ((s.skip 1).emit .value)

/-- A token that may be the start of a key, as a reader finds it. -/
def nodeToken (s : Scanner) (read : Cursor → Option (Token × Cursor)) : Option Scanner := do
  let s ← s.saveCandidate
  let (t, cursor) ← read s.cursor
  some ({ s.allow false with cursor }.emit t)

def blockScalar (s : Scanner) (literal : Bool) : Option Scanner := do
  let s ← s.dropCandidate
  let (text, cursor) ← block literal (s.indent + 1).toNat s.limit (s.cursor.skip 1)
  some ({ s.allow true with cursor }.emit (.scalar false (String.ofList text.reverse)))

def quotedScalar (s : Scanner) (quote : Char) : Option Scanner :=
  s.nodeToken fun c => do
    let (text, c) ← quoted quote s.limit [] (c.skip 1)
    some (.scalar false (String.ofList text.reverse), c)

def plainScalar (s : Scanner) : Option Scanner := do
  let s ← s.saveCandidate
  let (text, broken, cursor) ← plain s.inFlow (s.indent + 1).toNat s.limit {} [] s.cursor
  some ({ s.allow broken with cursor }.emit (.scalar true (String.ofList text.reverse)))

/-- Marks that no plain scalar starts with. -/
def reservedMarks : List Char := "-?:,[]\x7b\x7d#&*!|>'\"%@\x60".toList

/-- Whether a plain scalar may start with this character. -/
def startsPlain (s : Scanner) (ch : Char) : Bool :=
  !reservedMarks.contains ch ||
    (ch == '-' && !((s.cursor.chars.tail.head?.map isBlank).getD false)) ||
    (!s.inFlow && (ch == '?' || ch == ':') && !s.cursor.gapAt 1)

/-- The token at hand, which starts with a character that is no blank. -/
def token (s : Scanner) (ch : Char) : Option Scanner :=
  let c := s.cursor
  if c.column == 0 && ch == '%' then s.directiveToken
  else if c.atMark '-' then s.documentToken .documentStart
  else if c.atMark '.' then s.documentToken .documentEnd
  else if ch == '-' && c.gapAt 1 then s.blockEntry
  else if ch == '?' && (s.inFlow || c.gapAt 1) then s.keyToken
  else if ch == ':' && (s.inFlow || c.gapAt 1) then s.valueToken
  else if s.startsPlain ch && !isBlank ch then s.plainScalar
  else match ch with
    | '[' => s.flowStart .flowSequenceStart
    | '\x7b' => s.flowStart .flowMappingStart
    | ']' => s.flowEnd .flowSequenceEnd
    | '\x7d' => s.flowEnd .flowMappingEnd
    | ',' => s.flowEntry
    | '*' => s.nodeToken fun c => do
      let (name, c) ← anchorName? (c.skip 1)
      some (.aliasOf name, c)
    | '&' => s.nodeToken fun c => do
      let (name, c) ← anchorName? (c.skip 1)
      some (.anchor name, c)
    | '!' => s.nodeToken fun c => do
      let (tag, c) ← tag? s.inFlow s.limit c
      some (.tag tag, c)
    | '|' => if s.inFlow then none else s.blockScalar true
    | '>' => if s.inFlow then none else s.blockScalar false
    | '\'' => s.quotedScalar '\''
    | '"' => s.quotedScalar '"'
    | _ => none

/-- The end of the text closes all block collections. -/
def finish (s : Scanner) : Option (List Token) := do
  let s ← (s.unroll (-1)).dropCandidate
  some (s.emit .streamEnd).tokens.reverse

/-- Cuts the rest of the text. -/
def run : Nat → Scanner → Option (List Token)
  | 0, _ => none
  | limit + 1, s => do
    let s ← (toToken s.limit s).expireAll
    let s := s.unroll s.cursor.column
    match s.cursor.head? with
    | none => s.finish
    | some ch => run limit (← s.token ch)

end Scanner

/-- The tokens of a text. A byte order mark at its start does not count. -/
def Token.ofText? (text : String) : Option (List Token) :=
  let chars := if text.toList.head? = some byteOrderMark then text.toList.tail else text.toList
  if chars.all isAllowed then
    let limit := chars.length + 2
    Scanner.run limit { limit, cursor := { chars } }
  else none

end ZodGen.Yaml
