/-!
# Byte offsets in a text

A text is a list of characters, and its places are counted in UTF-8 bytes. Only offsets that stand
between two characters are places; `splitAt?` refuses the others. A place is shown to a reader as a
line and a column (`position`), both counted from one, the column in characters.
-/

namespace ZodGen.Text

/-- Bytes the characters take in UTF-8. -/
def byteLength : List Char → Nat
  | [] => 0
  | c :: cs => c.utf8Size + byteLength cs

/-- Cuts the text at a byte offset, when that offset stands between two characters. -/
def splitAt? : Nat → List Char → Option (List Char × List Char)
  | 0, cs => some ([], cs)
  | _ + 1, [] => none
  | n + 1, c :: cs =>
    if c.utf8Size ≤ n + 1 then
      (splitAt? (n + 1 - c.utf8Size) cs).map fun (before, after) => (c :: before, after)
    else
      none

/-- The text before a byte offset; the whole text when the offset is no place of it. -/
def before (cs : List Char) (offset : Nat) : List Char :=
  match splitAt? offset cs with
  | some (front, _) => front
  | none => cs

/-- The text from a byte offset on; nothing when the offset is no place of it. -/
def after (cs : List Char) (offset : Nat) : List Char :=
  match splitAt? offset cs with
  | some (_, back) => back
  | none => []

/-- The text between two byte offsets. -/
def slice (cs : List Char) (start stop : Nat) : List Char :=
  before (after cs start) (stop - start)

/-- Line and column just behind `front`: one more than its line breaks, and one more than the
characters since the last of them. -/
def positionAfter (front : List Char) : Nat × Nat :=
  (front.count '\n' + 1, (front.reverse.takeWhile (· != '\n')).length + 1)

/-- Line and column of a byte offset. An offset that is no place of the text stands for its end. -/
def position (cs : List Char) (offset : Nat) : Nat × Nat :=
  positionAfter (before cs offset)

end ZodGen.Text
