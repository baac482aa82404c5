import ZodGen.Script.Parser.Statement

/-!
# Whole scripts

`Program.parse` reads a script. Productions nest no deeper than the text is long, so a depth taken
from its length closes the recursion of the grammar.
-/

namespace ZodGen.Script

namespace Parser

/-- The grammar, down to a depth. -/
def grammar : Nat → {α : Type} → Goal α → Parser α
  | 0, _, _ => unexpected
  | n + 1, _, .statement place => statement (grammar n) place
  | n + 1, _, .assignment returnType => assignmentExpression (grammar n) returnType
  | n + 1, _, .binary least => binaryExpression (grammar n) least
  | n + 1, _, .unary => simpleUnary (grammar n)
  | n + 1, _, .simpleUnary => simpleUnary (grammar n)
  | n + 1, _, .leftHand => leftHandExpression (grammar n)
  | n + 1, _, .member => memberExpression (grammar n)
  | n + 1, _, .pattern reach => pattern (grammar n) reach
  | n + 1, _, .type => typeExpression (grammar n)

/-- The statements of a script. Quoted texts before the first other statement are directives and do
not count. -/
def topLevel (g : Grammar) : Parser (List (Option Declaration)) := do
  let found ← collect do
    if ← atEnd then return none
    return some (← g (.statement .list))
  let isText : Statement → Bool
    | .text => true
    | _ => false
  let kept : Statement → Option Declaration
    | .declares d => some d
    | _ => none
  return (found.dropWhile isText).map kept

/-- Fails if a fault was recorded, or a default stands outside a pattern. -/
def finish : Parser Unit := do
  let s ← get
  match (s.tokenFaults.getLast?.or s.faults.getLast?).or s.loneDefaults.getLast? with
  | some place => throw place
  | none => return

end Parser

/-- What follows a first line that names an interpreter. -/
def afterInterpreter (source : Cursor) : Cursor :=
  match source.chars with
  | '#' :: '!' :: _ => source.skipWhile (!Token.isLineBreak ·)
  | _ => source

/-- Reads a script, or gives the byte offset of the fault to report. -/
def Program.parse (source : String) : Except Nat Program :=
  let limit := source.utf8ByteSize + 1
  let first := Token.next limit (afterInterpreter ⟨source.toList, 0⟩)
  let start : State :=
    { limit, token := first.token, here := first.here, rest := first.rest, lastStop := 0,
      context := {}, tokenFaults := first.faults.reverse, faults := [], loneDefaults := [],
      items := [] }
  let read : Parser Program := do
    let statements ← Parser.topLevel (Parser.grammar (8 * limit + 64))
    Parser.finish
    return ⟨statements, (← get).items.reverse⟩
  match read.run start with
  | .ok (program, _) => .ok program
  | .error place => .error place

end ZodGen.Script
