import ZodGen.Json.Basic

/-!
# JSON text of a value

`Value.compact` writes no blanks. `Value.pretty` writes every member and item on a line of its own,
two spaces deeper than its container. Texts are quoted the same way in both: quote, backslash and
control characters are escaped, all else stands as it is.
-/

namespace ZodGen.Json

/-- One lower-case hexadecimal digit. -/
def hexDigit (n : Nat) : Char := (Nat.toDigits 16 (n % 16)).headD '0'

/-- A character inside a quoted text. -/
def escape (c : Char) : List Char :=
  match c with
  | '"' => ['\\', '"']
  | '\\' => ['\\', '\\']
  | '\n' => ['\\', 'n']
  | '\r' => ['\\', 'r']
  | '\t' => ['\\', 't']
  | '\x08' => ['\\', 'b']
  | '\x0c' => ['\\', 'f']
  | c =>
    if c.toNat < 0x20 then
      ['\\', 'u', '0', '0', hexDigit (c.toNat / 16), hexDigit c.toNat]
    else
      [c]

/-- A text between quotes. -/
def quoteChars (cs : List Char) : List Char := '"' :: cs.flatMap escape ++ ['"']

def quote (s : String) : String := String.ofList (quoteChars s.toList)

mutual

/-- JSON text without blanks. -/
def compact : Value → String
  | .null => "null"
  | .bool b => if b then "true" else "false"
  | .num n => n.text
  | .str s => quote s
  | .arr items => "[" ++ ",".intercalate (compactItems items) ++ "]"
  | .obj ms => "\x7b" ++ ",".intercalate (compactMembers ms) ++ "\x7d"

def compactItems : List Value → List String
  | [] => []
  | v :: vs => compact v :: compactItems vs

def compactMembers : List (String × Value) → List String
  | [] => []
  | (k, v) :: ms => (quote k ++ ":" ++ compact v) :: compactMembers ms

end

/-- Two spaces for every level. -/
def indent (depth : Nat) : String := String.ofList (List.replicate (2 * depth) ' ')

/-- Puts each entry on its own line inside a pair of brackets at the given depth. -/
def block (depth : Nat) (left right : String) (entries : List String) : String :=
  if entries.isEmpty then left ++ right
  else
    left ++ "\n" ++ ",\n".intercalate (entries.map (indent (depth + 1) ++ ·)) ++ "\n" ++
      indent depth ++ right

mutual

/-- JSON text with one member or item a line, at the given depth. -/
def prettyAt (depth : Nat) : Value → String
  | .arr items => block depth "[" "]" (prettyItems (depth + 1) items)
  | .obj ms => block depth "\x7b" "\x7d" (prettyMembers (depth + 1) ms)
  | v => compact v

def prettyItems (depth : Nat) : List Value → List String
  | [] => []
  | v :: vs => prettyAt depth v :: prettyItems depth vs

def prettyMembers (depth : Nat) : List (String × Value) → List String
  | [] => []
  | (k, v) :: ms => (quote k ++ ": " ++ prettyAt depth v) :: prettyMembers depth ms

end

def pretty (v : Value) : String := prettyAt 0 v

end ZodGen.Json
