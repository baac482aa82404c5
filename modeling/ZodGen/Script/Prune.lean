import ZodGen.Error
import ZodGen.Script.Liveness
import ZodGen.Script.Parser.Program
import ZodGen.Text.Blank
import ZodGen.Text.Offset

/-!
# Cutting what a script does not need

`prune` removes the declarators that are not live and copies everything else. A declaration without
live declarators goes with its line and the empty lines below it when nothing else stands on the
line; otherwise it goes with the spaces behind it.
-/

namespace ZodGen.Script

/-- Reads a script. A fault is reported with its line and column. -/
def parse (source : String) : Outcome Program :=
  match Program.parse source with
  | .ok p => .ok p
  | .error offset =>
    let (line, column) := Text.position source.toList offset
    fail .malformedSource (toString line ++ ":" ++ toString column)

/-- A replacement of the text between two byte offsets. -/
structure Edit where
  start : Nat
  stop : Nat
  text : List Char
  deriving DecidableEq, Repr

/-- The first line with its line break, and what follows. -/
def firstLine : List Char → List Char × List Char
  | [] => ([], [])
  | c :: cs => if c = '\n' then ([c], cs) else (c :: (firstLine cs).1, (firstLine cs).2)

theorem length_firstLine_snd (cs : List Char) : (firstLine cs).2.length ≤ cs.length := by
  induction cs with
  | nil => simp [firstLine]
  | cons c cs ih =>
    unfold firstLine
    split
    · simp
    · simp; omega

theorem length_firstLine_cons (c : Char) (cs : List Char) :
    (firstLine (c :: cs)).2.length < (c :: cs).length := by
  have := length_firstLine_snd cs
  unfold firstLine
  split
  · simp
  · simp; omega

/-- How many bytes the blank lines at the start of a text take. -/
def blankLines : List Char → Nat
  | [] => 0
  | c :: cs =>
    if Text.allBlank (firstLine (c :: cs)).1 then
      Text.byteLength (firstLine (c :: cs)).1 + blankLines (firstLine (c :: cs)).2
    else 0
termination_by cs => cs.length
decreasing_by exact length_firstLine_cons c cs

/-- What goes with a declaration that is cut as a whole: the offsets from where to where. -/
def removalRange (source : List Char) (span : Span) : Nat × Nat :=
  let front := Text.before source span.start
  let rest := Text.after source span.stop
  let indent := (front.reverse.takeWhile (· != '\n')).reverse
  let (line, below) := firstLine rest
  if Text.allBlank indent && Text.allBlank line then
    (span.start - Text.byteLength indent, span.stop + Text.byteLength line + blankLines below)
  else
    (span.start, span.stop + (rest.takeWhile fun c => c = ' ' || c = '\t').length)

/-- How a declaration changes when only the flagged declarators stay. -/
def editOf? (source : List Char) (d : Declaration) (flags : List Bool) : Option Edit :=
  if flags.all id then none
  else if flags.any id then
    let kept := (d.declarators.zip flags).filterMap fun (span, live) =>
      if live then some (String.ofList (Text.slice source span.start span.stop)) else none
    some ⟨d.span.start, d.span.stop,
      (d.kind.keyword ++ " " ++ ", ".intercalate kept ++ ";").toList⟩
  else
    let (start, stop) := removalRange source d.span
    some ⟨start, stop, []⟩

/-- Applies edits in order to a text that starts at a byte offset. -/
def applyEdits : Nat → List Char → List Edit → List Char
  | _, rest, [] => rest
  | offset, rest, e :: es =>
    let start := max e.start offset
    Text.before rest (start - offset) ++ e.text ++
      applyEdits e.stop (Text.after rest (e.stop - offset)) es

/-- The edits that cut all dead declarators of a script. -/
def edits (source : List Char) (p : Program) : List Edit :=
  let l := Liveness.ofProgram p
  let names := l.reached
  p.statements.zipIdx.filterMap fun (statement, i) =>
    statement.bind fun d =>
      editOf? source d ((l.bindings.filter (·.statement == i)).map (·.declares names))

/-- Removes the declarators that are not live. -/
def prune (source : String) : Outcome String := do
  let p ← parse source
  .ok (String.ofList (applyEdits 0 source.toList (edits source.toList p)))

end ZodGen.Script
