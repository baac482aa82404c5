import ZodGen.Json.Basic

/-!
# Reading JSON text

`Json.parse?` reads one value and nothing else. A repeated key keeps its first place and takes its
last value. Numbers without point and exponent that fit are integers; all others are doubles.
-/

namespace ZodGen.Json

def isBlank (c : Char) : Bool := c == ' ' || c == '\n' || c == '\t' || c == '\r'

def skipBlanks (cs : List Char) : List Char := cs.dropWhile isBlank

/-- Value of a hexadecimal digit. -/
def hexValue? (c : Char) : Option Nat :=
  if c.isDigit then some (c.toNat - '0'.toNat)
  else if 'a' ≤ c ∧ c ≤ 'f' then some (c.toNat - 'a'.toNat + 10)
  else if 'A' ≤ c ∧ c ≤ 'F' then some (c.toNat - 'A'.toNat + 10)
  else none

/-- Four hexadecimal digits. -/
def unit? : List Char → Option (Nat × List Char)
  | a :: b :: c :: d :: rest => do
    let a ← hexValue? a
    let b ← hexValue? b
    let c ← hexValue? c
    let d ← hexValue? d
    some (((a * 16 + b) * 16 + c) * 16 + d, rest)
  | _ => none

/-- The character behind `\u`: one unit, or two when the first is the high half of a pair. -/
def unicode? (cs : List Char) : Option (Char × List Char) := do
  let (high, rest) ← unit? cs
  if 0xD800 ≤ high ∧ high < 0xDC00 then
    match rest with
    | '\\' :: 'u' :: rest =>
      let (low, rest) ← unit? rest
      if 0xDC00 ≤ low ∧ low < 0xE000 then
        some (Char.ofNat (0x10000 + (high - 0xD800) * 0x400 + (low - 0xDC00)), rest)
      else none
    | _ => none
  else if 0xDC00 ≤ high ∧ high < 0xE000 then none
  else some (Char.ofNat high, rest)

/-- The rest of a quoted text, up to its closing quote; `acc` holds what was read, last first. -/
def text? : Nat → List Char → List Char → Option (String × List Char)
  | 0, _, _ => none
  | _ + 1, _, [] => none
  | fuel + 1, acc, c :: cs =>
    if c = '"' then some (String.ofList acc.reverse, cs)
    else if c = '\\' then
      match cs with
      | '"' :: cs => text? fuel ('"' :: acc) cs
      | '\\' :: cs => text? fuel ('\\' :: acc) cs
      | '/' :: cs => text? fuel ('/' :: acc) cs
      | 'b' :: cs => text? fuel ('\x08' :: acc) cs
      | 'f' :: cs => text? fuel ('\x0c' :: acc) cs
      | 'n' :: cs => text? fuel ('\n' :: acc) cs
      | 'r' :: cs => text? fuel ('\r' :: acc) cs
      | 't' :: cs => text? fuel ('\t' :: acc) cs
      | 'u' :: cs =>
        match unicode? cs with
        | some (u, cs) => text? fuel (u :: acc) cs
        | none => none
      | _ => none
    else if c.toNat < 0x20 then none
    else text? fuel (c :: acc) cs

/-- Natural number of decimal digits. -/
def ofDigits (ds : List Char) : Nat := ds.foldl (fun n d => n * 10 + (d.toNat - '0'.toNat)) 0

/-- The digits at the start of a text, and the rest. -/
def digits (cs : List Char) : List Char × List Char :=
  (cs.takeWhile Char.isDigit, cs.dropWhile Char.isDigit)

/-- The number that a sign, whole digits, digits behind the point and an exponent describe. -/
def number? (negative : Bool) (whole frac : List Char) (exponent : Option Int) (plain : Bool) :
    Option Number :=
  let n := ofDigits whole
  let signed : Int := if negative then -(n : Int) else n
  if plain && Number.fitsInt signed && !(negative && n == 0) then some (.int signed)
  else
    (Double.ofDecimal? negative (ofDigits (whole ++ frac))
      (exponent.getD 0 - (frac.length : Int))).map .double

/-- A JSON number at the start of a text. -/
def readNumber? (cs : List Char) : Option (Number × List Char) := do
  let (negative, cs) := match cs with
    | '-' :: cs => (true, cs)
    | cs => (false, cs)
  let (whole, cs) := digits cs
  guard (!whole.isEmpty && (whole.length == 1 || whole.head? != some '0'))
  let (frac, hasPoint, cs) := match cs with
    | '.' :: cs => let (f, cs) := digits cs; (f, true, cs)
    | cs => ([], false, cs)
  guard (!hasPoint || !frac.isEmpty)
  match cs with
  | e :: rest =>
    if e = 'e' ∨ e = 'E' then do
      let (minus, rest) := match rest with
        | '-' :: r => (true, r)
        | '+' :: r => (false, r)
        | r => (false, r)
      let (ds, rest) := digits rest
      guard (!ds.isEmpty)
      let p : Int := ofDigits ds
      let n ← number? negative whole frac (some (if minus then -p else p)) false
      some (n, rest)
    else do
      let n ← number? negative whole frac none (!hasPoint)
      some (n, cs)
  | [] => do
    let n ← number? negative whole frac none (!hasPoint)
    some (n, cs)

mutual

/-- One value at the start of a text, blanks before it allowed. -/
def value? : Nat → List Char → Option (Value × List Char)
  | 0, _ => none
  | fuel + 1, cs =>
    match skipBlanks cs with
    | 'n' :: 'u' :: 'l' :: 'l' :: rest => some (.null, rest)
    | 't' :: 'r' :: 'u' :: 'e' :: rest => some (.bool true, rest)
    | 'f' :: 'a' :: 'l' :: 's' :: 'e' :: rest => some (.bool false, rest)
    | '"' :: rest => do
      let (s, rest) ← text? (rest.length + 1) [] rest
      some (.str s, rest)
    | '[' :: rest =>
      match skipBlanks rest with
      | ']' :: rest => some (.arr [], rest)
      | rest => do
        let (items, rest) ← items? fuel rest
        some (.arr items, rest)
    | '{' :: rest =>
      match skipBlanks rest with
      | '}' :: rest => some (.obj [], rest)
      | rest => do
        let (ms, rest) ← members? fuel rest
        some (.obj (Assoc.ofList ms), rest)
    | cs => do
      let (n, rest) ← readNumber? cs
      some (.num n, rest)

/-- The items of a list up to its bracket. -/
def items? : Nat → List Char → Option (List Value × List Char)
  | 0, _ => none
  | fuel + 1, cs => do
    let (v, rest) ← value? fuel cs
    match skipBlanks rest with
    | ',' :: rest =>
      let (vs, rest) ← items? fuel rest
      some (v :: vs, rest)
    | ']' :: rest => some ([v], rest)
    | _ => none

/-- The members of an object up to its brace. -/
def members? : Nat → List Char → Option (List (String × Value) × List Char)
  | 0, _ => none
  | fuel + 1, cs =>
    match skipBlanks cs with
    | '"' :: rest => do
      let (k, rest) ← text? (rest.length + 1) [] rest
      match skipBlanks rest with
      | ':' :: rest =>
        let (v, rest) ← value? fuel rest
        match skipBlanks rest with
        | ',' :: rest =>
          let (ms, rest) ← members? fuel rest
          some ((k, v) :: ms, rest)
        | '}' :: rest => some ([(k, v)], rest)
        | _ => none
      | _ => none
    | _ => none

end

/-- The value of a text that holds one JSON value. -/
def parse? (text : String) : Option Value := do
  let cs := text.toList
  let (v, rest) ← value? (cs.length + 1) cs
  guard (skipBlanks rest).isEmpty
  some v

end ZodGen.Json
