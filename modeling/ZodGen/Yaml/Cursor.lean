/-!
# A place in a YAML text

A place knows the characters that follow and its index, line and column, all counted in characters
from zero. A line break is one of five characters, or the pair of carriage return and line feed.
-/

namespace ZodGen.Yaml

/-- Spaces and tabs. -/
def isBlank (c : Char) : Bool := c == ' ' || c == '\t'

/-- Characters that end a line. -/
def isBreak (c : Char) : Bool :=
  c == '\n' || c == '\r' || c.toNat == 0x85 || c.toNat == 0x2028 || c.toNat == 0x2029

/-- A mark that some texts start with. -/
def byteOrderMark : Char := Char.ofNat 0xFEFF

/-- Characters that a YAML text may hold. -/
def isAllowed (c : Char) : Bool :=
  let n := c.toNat
  n == 0x09 || n == 0x0A || n == 0x0D || (0x20 ≤ n && n ≤ 0x7E) || n == 0x85 ||
    (0xA0 ≤ n && n ≤ 0xD7FF) || (0xE000 ≤ n && n ≤ 0xFFFD) || 0x10000 ≤ n

structure Cursor where
  chars : List Char
  index : Nat := 0
  line : Nat := 0
  column : Nat := 0

namespace Cursor

/-- The character at hand. -/
def head? (c : Cursor) : Option Char := c.chars.head?

/-- Whether the character at hand is this one. -/
def at_ (c : Cursor) (ch : Char) : Bool := c.head? == some ch

/-- Whether the character `n` places on is blank, ends a line, or is missing. -/
def gapAt (c : Cursor) (n : Nat) : Bool :=
  match c.chars.drop n with
  | [] => true
  | ch :: _ => isBlank ch || isBreak ch

/-- Whether the line ends here. -/
def atLineEnd (c : Cursor) : Bool :=
  match c.chars with
  | [] => true
  | ch :: _ => isBreak ch

/-- Passes characters inside a line. -/
def skip (c : Cursor) (n : Nat) : Cursor :=
  { c with chars := c.chars.drop n, index := c.index + n, column := c.column + n }

/-- Passes characters inside a line while they fit. -/
def skipWhile (c : Cursor) (p : Char → Bool) : Cursor := c.skip (c.chars.takeWhile p).length

/-- The start of the next line, and the line break as it counts in a text: the separators of lines
and paragraphs stay themselves, all others are a line feed. Nothing happens inside a line. -/
def passBreak (c : Cursor) : List Char × Cursor :=
  match c.chars with
  | '\r' :: '\n' :: rest => (['\n'], ⟨rest, c.index + 2, c.line + 1, 0⟩)
  | ch :: rest =>
    if isBreak ch then
      let kept := if ch.toNat == 0x2028 || ch.toNat == 0x2029 then ch else '\n'
      ([kept], ⟨rest, c.index + 1, c.line + 1, 0⟩)
    else ([], c)
  | [] => ([], c)

/-- Whether `---` or `...` stands alone at the start of a line. -/
def atMark (c : Cursor) (ch : Char) : Bool :=
  c.column == 0 && c.chars.take 3 == [ch, ch, ch] && c.gapAt 3

def atDocumentMark (c : Cursor) : Bool := c.atMark '-' || c.atMark '.'

end Cursor

end ZodGen.Yaml
