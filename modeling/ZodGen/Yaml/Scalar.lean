import ZodGen.Json.Reader
import ZodGen.Yaml.Cursor

/-!
# The texts of scalars

A scalar is plain, quoted or a block. In the first two, blanks around a line break are dropped, a
single line break reads as a space, and of several the first is dropped. A reader takes a `limit`
above the number of characters, which bounds its recursion, and gives what it read in reverse.
-/

namespace ZodGen.Yaml

/-- Blanks and line breaks between two words of a scalar. -/
structure Gap where
  /-- Blanks before the first line break. -/
  blanks : List Char := []
  /-- The first line break, and the others. -/
  first : List Char := []
  more : List Char := []
  /-- Whether there is a line break. -/
  broken : Bool := false

namespace Gap

/-- What a gap reads as. -/
def text (g : Gap) : List Char :=
  if g.broken then
    if g.first = ['\n'] then (if g.more.isEmpty then [' '] else g.more) else g.first ++ g.more
  else g.blanks

/-- Takes blanks and line breaks into a gap. A tab must not stand before column `indent` of a new
line. -/
def read (indent : Nat) : Nat → Gap → Cursor → Option (Gap × Cursor)
  | 0, _, _ => none
  | limit + 1, g, c =>
    match c.chars with
    | [] => some (g, c)
    | ch :: _ =>
      if isBlank ch then
        if g.broken then
          if ch = '\t' ∧ c.column < indent then none else read indent limit g (c.skip 1)
        else read indent limit { g with blanks := g.blanks ++ [ch] } (c.skip 1)
      else if isBreak ch then
        let (kept, next) := c.passBreak
        let g := if g.broken then { g with more := g.more ++ kept }
          else { g with first := kept, broken := true }
        read indent limit g next
      else some (g, c)

end Gap

/-! ## Quoted scalars -/

/-- A character by its number in hexadecimal digits. -/
def ofHex? (ds : List Char) : Option Char := do
  let n ← ds.foldlM (fun n d => (Json.hexValue? d).map (n * 16 + ·)) 0
  if n < 0xD800 ∨ (0xDFFF < n ∧ n ≤ 0x10FFFF) then some (Char.ofNat n) else none

/-- The character that an escape stands for, and how long the escape is behind its backslash. -/
def escape? (cs : List Char) : Option (Char × Nat) :=
  let hex (n : Nat) (rest : List Char) : Option (Char × Nat) :=
    if (rest.take n).length = n then (ofHex? (rest.take n)).map fun c => (c, n + 1) else none
  match cs with
  | '0' :: _ => some ('\x00', 1)
  | 'a' :: _ => some ('\x07', 1)
  | 'b' :: _ => some ('\x08', 1)
  | 't' :: _ => some ('\t', 1)
  | '\t' :: _ => some ('\t', 1)
  | 'n' :: _ => some ('\n', 1)
  | 'v' :: _ => some ('\x0b', 1)
  | 'f' :: _ => some ('\x0c', 1)
  | 'r' :: _ => some ('\r', 1)
  | 'e' :: _ => some ('\x1b', 1)
  | ' ' :: _ => some (' ', 1)
  | '"' :: _ => some ('"', 1)
  | '/' :: _ => some ('/', 1)
  | '\\' :: _ => some ('\\', 1)
  | 'N' :: _ => some (Char.ofNat 0x85, 1)
  | '_' :: _ => some (Char.ofNat 0xA0, 1)
  | 'L' :: _ => some (Char.ofNat 0x2028, 1)
  | 'P' :: _ => some (Char.ofNat 0x2029, 1)
  | 'x' :: rest => hex 2 rest
  | 'u' :: rest => hex 4 rest
  | 'U' :: rest => hex 8 rest
  | _ => none

/-- The rest of a quoted scalar, from behind its opening quote to behind its closing one. -/
def quoted (quote : Char) : Nat → List Char → Cursor → Option (List Char × Cursor)
  | 0, _, _ => none
  | limit + 1, acc, c =>
    if c.atDocumentMark then none
    else match c.chars with
      | [] => none
      | ch :: rest =>
        if isBlank ch || isBreak ch then do
          let (g, c) ← Gap.read 0 (limit + 1) {} c
          quoted quote limit (g.text.reverse ++ acc) c
        else if ch = quote then
          if quote = '\'' ∧ rest.head? = some '\'' then quoted quote limit (ch :: acc) (c.skip 2)
          else some (acc, c.skip 1)
        else if ch = '\\' ∧ quote = '"' then
          if (rest.head?.map isBreak).getD false then do
            let (g, c) ← Gap.read 0 (limit + 1) { broken := true } ((c.skip 1).passBreak).2
            quoted quote limit (g.text.reverse ++ acc) c
          else do
            let (e, n) ← escape? rest
            quoted quote limit (e :: acc) (c.skip (n + 1))
        else quoted quote limit (ch :: acc) (c.skip 1)

/-! ## Plain scalars -/

/-- Marks of flow collections, which end a plain scalar in one. -/
def isFlowMark (c : Char) : Bool := c == ',' || c == '[' || c == ']' || c == '\x7b' || c == '\x7d'

/-- The rest of a plain scalar, and whether it ends behind a line break. `indent` is the least
column of its further lines outside of flow collections. -/
def plain (inFlow : Bool) (indent : Nat) :
    Nat → Gap → List Char → Cursor → Option (List Char × Bool × Cursor)
  | 0, _, _, _ => none
  | limit + 1, g, acc, c =>
    match c.chars with
    | [] => some (acc, g.broken, c)
    | ch :: rest =>
      if isBlank ch || isBreak ch then do
        let (g, c) ← Gap.read indent (limit + 1) {} c
        if (!inFlow && c.column < indent) || c.atDocumentMark || c.at_ '#' then
          some (acc, g.broken, c)
        else plain inFlow indent limit g acc c
      else if inFlow && ch == ':' &&
          ((rest.head?.map fun d => isFlowMark d || d == '?').getD false) then none
      else if (ch == ':' && c.gapAt 1) || (inFlow && isFlowMark ch) then some (acc, g.broken, c)
      else plain inFlow indent limit {} (ch :: (g.text.reverse ++ acc)) (c.skip 1)

/-! ## Blocks -/

/-- What becomes of the line breaks at the end of a block. -/
inductive Chomp where
  | strip
  | clip
  | keep
  deriving DecidableEq

/-- The indicators behind `|` or `>`: a sign for the line breaks at the end, and the indentation, in
either order. -/
def blockHeader? (c : Cursor) : Option (Chomp × Option Nat × Cursor) :=
  let sign? (c : Cursor) : Option Chomp := match c.head? with
    | some '+' => some .keep
    | some '-' => some .strip
    | _ => none
  let digit? (c : Cursor) : Option (Option Nat) := match c.head? with
    | some d => if d.isDigit then (if d = '0' then none else some (some (d.toNat - '0'.toNat)))
      else some none
    | none => some none
  match sign? c with
  | some chomp => do
    match ← digit? (c.skip 1) with
    | some n => some (chomp, some n, c.skip 2)
    | none => some (chomp, none, c.skip 1)
  | none => do
    match ← digit? c with
    | some n =>
      match sign? (c.skip 1) with
      | some chomp => some (chomp, some n, c.skip 2)
      | none => some (.clip, some n, c.skip 1)
    | none => some (.clip, none, c)

/-- Passes spaces, up to a column if one is given. -/
def skipSpaces (indent : Option Nat) (c : Cursor) : Cursor :=
  let spaces := (c.chars.takeWhile (· == ' ')).length
  match indent with
  | some n => c.skip (min spaces (n - c.column))
  | none => c.skip spaces

/-- Empty lines of a block: the widest of their indentations, and their line breaks. No tab may
stand where indentation is looked for. -/
def emptyLines (indent : Option Nat) :
    Nat → Nat → List Char → Cursor → Option (Nat × List Char × Cursor)
  | 0, _, _, _ => none
  | limit + 1, widest, breaks, c =>
    let c := skipSpaces indent c
    let widest := max widest c.column
    let inIndent := match indent with
      | some n => c.column < n
      | none => true
    if inIndent && c.at_ '\t' then none
    else
      let (kept, next) := c.passBreak
      if kept.isEmpty then some (widest, breaks, c)
      else emptyLines indent limit widest (breaks ++ kept) next

/-- The lines of a block. `lead` is the line break behind the last line, `breaks` those of the empty
lines after it, and `wasBlank` says whether the last line starts with a blank. -/
def blockLines (literal : Bool) (indent : Nat) : Nat → Bool → List Char → List Char → List Char →
    Cursor → Option (List Char × List Char × List Char × Cursor)
  | 0, _, _, _, _, _ => none
  | limit + 1, wasBlank, lead, breaks, acc, c =>
    if c.column ≠ indent ∨ c.chars.isEmpty then some (acc, lead, breaks, c)
    else do
      let isBlankLine := (c.head?.map isBlank).getD false
      let folds := !literal && lead == ['\n'] && !wasBlank && !isBlankLine
      let joint := if folds then (if breaks.isEmpty then [' '] else []) else lead
      let words := c.chars.takeWhile (!isBreak ·)
      let (lead', next) := (c.skip words.length).passBreak
      let (_, breaks', next) ← emptyLines (some indent) (limit + 1) 0 [] next
      blockLines literal indent limit isBlankLine lead' breaks'
        (words.reverse ++ (breaks.reverse ++ (joint.reverse ++ acc))) next

/-- A block from behind `|` or `>`. `parent` is the first column that is inside of what is
around. -/
def block (literal : Bool) (parent limit : Nat) (c : Cursor) : Option (List Char × Cursor) := do
  let (chomp, increment, c) ← blockHeader? c
  let c := c.skipWhile isBlank
  let c := if c.at_ '#' then c.skipWhile (!isBreak ·) else c
  if !c.atLineEnd then none
  else
    let c := c.passBreak.2
    let given := increment.map fun n => (parent - 1) + n
    let (widest, breaks, c) ← emptyLines given limit 0 [] c
    let indent := given.getD (max widest (max parent 1))
    let (acc, lead, breaks, c) ← blockLines literal indent limit false [] breaks [] c
    let acc := if chomp = .strip then acc else lead.reverse ++ acc
    let acc := if chomp = .keep then breaks.reverse ++ acc else acc
    some (acc, c)

end ZodGen.Yaml
