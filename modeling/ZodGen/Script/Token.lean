import ZodGen.Json.Reader
import ZodGen.Text.Identifier
import ZodGen.Text.Offset

/-!
# Tokens of a script

`Token.next` reads one token from the text and gives what is left of it. Regular expressions and the
later parts of a template look like other tokens, so they have readers of their own
(`Token.regex`, `Token.templateRest`), which a parser calls where the grammar allows them. A `>` is
always a token of its own; `Token.joinAngles` joins it with what follows where an operator may
stand. The `limit` of a reader is any number above the length of the text; it bounds the recursion.
-/

namespace ZodGen.Script

/-- A range of byte offsets. -/
structure Span where
  start : Nat
  stop : Nat
  deriving DecidableEq, Repr, Inhabited

inductive Token.Kind where
  /-- The end of the text. -/
  | eof
  /-- Text that is no token; a fault was recorded for it. -/
  | fault
  /-- A name or a keyword. -/
  | word
  /-- A name behind `#`. -/
  | privateWord
  | string
  | number
  | regex
  /-- A piece of a template up to the end of the template, or up to the next `${`, and whether the
  escapes in it are well formed. -/
  | template (last cooked : Bool)
  /-- Punctuation and operators. -/
  | mark
  deriving DecidableEq, Repr, Inhabited

/-- A token: for words, marks and strings `text` is what they spell. -/
structure Token where
  kind : Token.Kind
  text : String
  span : Span
  /-- A line break stands before the token. -/
  newline : Bool
  /-- The word is spelled with an escape. -/
  escaped : Bool
  deriving Repr, Inhabited

/-- A place in the text: the characters left and the offset of the first of them. -/
structure Cursor where
  chars : List Char
  offset : Nat
  deriving Inhabited

namespace Cursor

/-- Passes characters that are known to come next. -/
def skip (n : Nat) (c : Cursor) : Cursor :=
  ⟨c.chars.drop n, c.offset + Text.byteLength (c.chars.take n)⟩

/-- Passes characters while they fit. -/
def skipWhile (p : Char → Bool) (c : Cursor) : Cursor :=
  ⟨c.chars.dropWhile p, c.offset + Text.byteLength (c.chars.takeWhile p)⟩

end Cursor

namespace Token

def isLineBreak (c : Char) : Bool :=
  c == '\n' || c == '\r' || c.toNat == 0x2028 || c.toNat == 0x2029

/-- White space inside a line. -/
def isSpace (c : Char) : Bool :=
  c == ' ' || c == '\t' || c.toNat == 0x0B || c.toNat == 0x0C || c.toNat == 0x85 ||
    c.toNat == 0xA0 || c.toNat == 0x1680 || c.toNat == 0x180E ||
    (0x2000 ≤ c.toNat && c.toNat ≤ 0x200B) || c.toNat == 0x202F || c.toNat == 0x205F ||
    c.toNat == 0x3000 || c.toNat == 0xFEFF

/-- The text behind `*/`, whether a line break stood before it, and how many bytes were passed. -/
def commentEnd? : List Char → Option (List Char × Bool × Nat)
  | [] => none
  | '*' :: '/' :: rest => some (rest, false, 2)
  | c :: rest =>
    (commentEnd? rest).map fun (r, newline, n) => (r, newline || isLineBreak c, n + c.utf8Size)

/-- What lies between two tokens: where it ends, whether it holds a line break, and where a comment
starts that does not end. -/
structure Gap where
  cursor : Cursor
  newline : Bool
  open? : Option Nat

/-- Passes white space and comments. -/
def gap (newline : Bool) : Nat → Cursor → Gap
  | 0, c => ⟨c, newline, none⟩
  | fuel + 1, c =>
    match c.chars with
    | '/' :: '/' :: _ => gap newline fuel (c.skipWhile (!isLineBreak ·))
    | '/' :: '*' :: rest =>
      match commentEnd? rest with
      | some (rest, found, n) => gap (newline || found) fuel ⟨rest, c.offset + 2 + n⟩
      | none => ⟨⟨[], c.offset + Text.byteLength c.chars⟩, newline, some c.offset⟩
    | ch :: rest =>
      if isSpace ch then gap newline fuel ⟨rest, c.offset + ch.utf8Size⟩
      else if isLineBreak ch then gap true fuel ⟨rest, c.offset + ch.utf8Size⟩
      else ⟨c, newline, none⟩
    | [] => ⟨c, newline, none⟩

/-- A token as it is found, before its place is known: kind, spelling, whether it is escaped, the
faults in it, and what follows. -/
structure Scan where
  kind : Kind
  text : String := ""
  escaped : Bool := false
  faults : List Nat := []
  rest : Cursor

/-- Hexadecimal digits up to a closing brace, as a code point. -/
def bracedPoint? : Nat → List Char → Option (Nat × List Char)
  | n, '}' :: rest => some (n, rest)
  | n, c :: rest =>
    match Json.hexValue? c with
    | some d => if n * 16 + d > 0x10FFFF then none else bracedPoint? (n * 16 + d) rest
    | none => none
  | _, [] => none

/-- The character of an escape behind `\u`, and what follows it. -/
def unicodeEscape? (cs : List Char) : Option (Nat × List Char) :=
  match cs with
  | '{' :: c :: rest => if c = '}' then none else bracedPoint? 0 (c :: rest)
  | cs => Json.unit? cs

/-- Reads the characters of a name. Gives the name (last character first), whether an escape was
used, the place of a bad escape, and what follows. -/
def nameChars : Nat → Bool → Bool → List Char → Cursor → List Char × Bool × Option Nat × Cursor
  | 0, _, escaped, acc, c => (acc, escaped, none, c)
  | fuel + 1, first, escaped, acc, c =>
    match c.chars with
    | '\\' :: 'u' :: rest =>
      match unicodeEscape? rest with
      | some (n, after) =>
        let ch := Char.ofNat n
        let used := Text.byteLength rest - Text.byteLength after
        let next : Cursor := ⟨after, c.offset + 2 + used⟩
        if (if first then Text.isIdStart ch else Text.isIdPart ch) then
          nameChars fuel false true (ch :: acc) next
        else (acc, true, some c.offset, next)
      | none => (acc, true, some c.offset, c.skip 2)
    | '\\' :: _ => (acc, true, some c.offset, c.skip 1)
    | ch :: rest =>
      if (if first then Text.isIdStart ch else Text.isIdPart ch) then
        nameChars fuel false escaped (ch :: acc) ⟨rest, c.offset + ch.utf8Size⟩
      else (acc, escaped, none, c)
    | [] => (acc, escaped, none, c)

/-- A name, or what is left of one behind `#`. -/
def scanName (limit : Nat) (kind : Kind) (c : Cursor) : Scan :=
  let (acc, escaped, bad, rest) := nameChars limit true false [] c
  match bad with
  | some at_ => { kind := .fault, faults := [at_], rest }
  | none => { kind, text := String.ofList acc.reverse, escaped, rest }

/-- Whether a name may start here. -/
def startsName : List Char → Bool
  | c :: _ => Text.isIdStart c || c == '\\'
  | [] => false

/-- Passes digits with single underscores between them; gives the place where a digit is missing
behind an underscore. -/
def digitRun (isDigit : Char → Bool) : Nat → Cursor → Option Nat × Cursor
  | 0, c => (none, c)
  | fuel + 1, c =>
    match c.chars with
    | '_' :: rest =>
      if (rest.head?.map isDigit).getD false then digitRun isDigit fuel (c.skip 1)
      else (some (c.offset + 1), c.skip 1)
    | d :: _ => if isDigit d then digitRun isDigit fuel (c.skip 1) else (none, c)
    | [] => (none, c)

/-- Directly behind a number neither a digit nor a name may stand. -/
def afterNumber (c : Cursor) : Scan :=
  match c.chars with
  | ch :: rest =>
    if ch.isDigit || startsName c.chars then
      let next := (Cursor.mk rest (c.offset + ch.utf8Size)).skipWhile Text.isIdStart
      { kind := .fault, faults := [c.offset], rest := next }
    else { kind := .number, rest := c }
  | [] => { kind := .number, rest := c }

/-- A number whose prefix gives the base. -/
def scanBased (limit : Nat) (isDigit : Char → Bool) (c : Cursor) : Scan :=
  match c.chars with
  | d :: _ =>
    if isDigit d then
      let (bad, c) := digitRun isDigit limit c
      match bad with
      | some at_ => { kind := .fault, faults := [at_], rest := c }
      | none => afterNumber (if c.chars.head? == some 'n' then c.skip 1 else c)
    else { kind := .fault, faults := [c.offset], rest := c.skip 1 }
  | [] => { kind := .fault, faults := [c.offset], rest := c }

/-- The exponent of a number, if one follows, then its end. -/
def scanExponent (limit : Nat) (c : Cursor) : Scan :=
  match c.chars with
  | e :: rest =>
    if e = 'e' ∨ e = 'E' then
      let next : Cursor := match rest with
        | '+' :: _ => c.skip 2
        | '-' :: _ => c.skip 2
        | _ => c.skip 1
      match next.chars with
      | d :: _ =>
        if d.isDigit then
          let (bad, c) := digitRun Char.isDigit limit next
          match bad with
          | some at_ => { kind := .fault, faults := [at_], rest := c }
          | none => afterNumber c
        else { kind := .fault, faults := [next.offset], rest := next }
      | [] => { kind := .fault, faults := [next.offset], rest := next }
    else afterNumber c
  | [] => afterNumber c

/-- The digits behind a point, then an exponent. -/
def scanFraction (limit : Nat) (c : Cursor) : Scan :=
  let starts := (c.chars.head?.map Char.isDigit).getD false
  let (bad, c) := if starts then digitRun Char.isDigit limit c else (none, c)
  match bad with
  | some at_ => { kind := .fault, faults := [at_], rest := c }
  | none => scanExponent limit c

/-- A number that starts with a digit. -/
def scanNumber (limit : Nat) (c : Cursor) : Scan :=
  let isHex (c : Char) : Bool := (Json.hexValue? c).isSome
  match c.chars with
  | '0' :: 'x' :: _ => scanBased limit isHex (c.skip 2)
  | '0' :: 'X' :: _ => scanBased limit isHex (c.skip 2)
  | '0' :: 'o' :: _ => scanBased limit (fun d => '0' ≤ d && d ≤ '7') (c.skip 2)
  | '0' :: 'O' :: _ => scanBased limit (fun d => '0' ≤ d && d ≤ '7') (c.skip 2)
  | '0' :: 'b' :: _ => scanBased limit (fun d => d == '0' || d == '1') (c.skip 2)
  | '0' :: 'B' :: _ => scanBased limit (fun d => d == '0' || d == '1') (c.skip 2)
  | _ =>
    let (bad, c) := digitRun Char.isDigit limit c
    match bad, c.chars with
    | some at_, _ => { kind := .fault, faults := [at_], rest := c }
    | none, 'n' :: _ => afterNumber (c.skip 1)
    | none, '.' :: _ => scanFraction limit (c.skip 1)
    | none, _ => scanExponent limit c

/-- Whether an escape behind a backslash is well formed; only `x` and `u` ask for digits. -/
def escapeOk : List Char → Bool
  | 'x' :: a :: b :: _ => (Json.hexValue? a).isSome && (Json.hexValue? b).isSome
  | 'x' :: _ => false
  | 'u' :: rest => (unicodeEscape? rest).isSome
  | _ => true

/-- A string up to its closing quote. `acc` holds what was read, last first. -/
def scanString (start : Nat) (quote : Char) : Nat → List Nat → List Char → Cursor → Scan
  | 0, faults, _, c => { kind := .fault, faults, rest := c }
  | fuel + 1, faults, acc, c =>
    match c.chars with
    | [] => { kind := .fault, faults := faults ++ [start], rest := c }
    | '\\' :: ch :: rest =>
      let faults := if escapeOk (ch :: rest) then faults else faults ++ [c.offset]
      match ch, rest with
      | '\r', '\n' :: _ => scanString start quote fuel faults acc (c.skip 3)
      | _, _ => scanString start quote fuel faults (ch :: acc) (c.skip 2)
    | ch :: rest =>
      let next : Cursor := ⟨rest, c.offset + ch.utf8Size⟩
      if ch = quote then
        { kind := .string, text := String.ofList acc.reverse, faults, rest := next }
      else if ch = '\n' ∨ ch = '\r' then { kind := .fault, faults := faults ++ [start], rest := c }
      else scanString start quote fuel faults (ch :: acc) next

/-- Whether an escape behind a backslash is well formed in a template, where digits other than a
single zero stand for nothing. -/
def templateEscapeOk : List Char → Bool
  | '0' :: d :: _ => !d.isDigit
  | c :: rest => c == '0' || (!c.isDigit && escapeOk (c :: rest))
  | [] => true

/-- A piece of a template, from behind its backtick or brace to the next backtick or `${`. `cooked`
says whether the escapes so far are well formed. -/
def scanTemplate (start : Nat) : Nat → Bool → Cursor → Scan
  | 0, _, c => { kind := .fault, rest := c }
  | fuel + 1, cooked, c =>
    match c.chars with
    | [] => { kind := .fault, faults := [start], rest := c }
    | '\\' :: ch :: rest =>
      scanTemplate start fuel (cooked && templateEscapeOk (ch :: rest)) (c.skip 2)
    | '$' :: '{' :: _ => { kind := .template false cooked, rest := c.skip 2 }
    | ch :: rest =>
      let next : Cursor := ⟨rest, c.offset + ch.utf8Size⟩
      if ch = Char.ofNat 0x60 then { kind := .template true cooked, rest := next }
      else scanTemplate start fuel cooked next

/-- Marks, longer ones before those they start with. -/
def marks : List String :=
  ["...", "===", "!==", "**=", "<<=", "&&=", "||=", "??=", "=>", "==", "!=", "<=", "++",
    "--", "&&", "||", "??", "?.", "+=", "-=", "*=", "/=", "%=", "&=", "|=", "^=", "**", "<<",
    "\x7b", "\x7d", "(", ")", "[", "]", ";", ",", "<", ">", "+", "-", "*", "/", "%", "&", "|", "^",
    "!", "~", "?", ":", "=", ".", "@"]

/-- The longest mark at the start of a text. -/
def mark? (cs : List Char) : Option String :=
  marks.find? fun m => m.toList.isPrefixOf cs &&
    -- `?.` in front of a digit is a question mark and a number.
    !(m == "?." && ((cs.drop 2).head?.map Char.isDigit).getD false)

/-- A token that starts exactly here. -/
def scan (limit : Nat) (c : Cursor) : Scan :=
  match c.chars with
  | [] => { kind := .eof, rest := c }
  | '#' :: rest =>
    if startsName rest then scanName limit .privateWord (c.skip 1)
    else { kind := .fault, faults := [c.offset + 1], rest := c.skip 2 }
  | '"' :: _ => scanString c.offset '"' limit [] [] (c.skip 1)
  | '\'' :: _ => scanString c.offset '\'' limit [] [] (c.skip 1)
  | '.' :: d :: _ =>
    if d.isDigit then scanFraction limit (c.skip 1)
    else match mark? c.chars with
      | some m => { kind := .mark, text := m, rest := c.skip m.length }
      | none => { kind := .fault, faults := [c.offset], rest := c.skip 1 }
  | ch :: _ =>
    if ch.isDigit then scanNumber limit c
    else if startsName c.chars then scanName limit .word c
    else if ch = Char.ofNat 0x60 then scanTemplate c.offset limit true (c.skip 1)
    else match mark? c.chars with
      | some m => { kind := .mark, text := m, rest := c.skip m.length }
      | none => { kind := .fault, faults := [c.offset], rest := c.skip 1 }

/-- A token with its place, the faults in and before it, and what follows it. -/
structure Found where
  token : Token
  faults : List Nat
  /-- Where the token starts. -/
  here : Cursor
  rest : Cursor
  deriving Inhabited

def Scan.found (s : Scan) (here : Cursor) (newline : Bool) : Found :=
  ⟨⟨s.kind, s.text, ⟨here.offset, s.rest.offset⟩, newline, s.escaped⟩, s.faults, here, s.rest⟩

/-- The next token. A comment that does not end is a fault where it starts. -/
def next (limit : Nat) (c : Cursor) : Found :=
  let g := gap false limit c
  match g.open? with
  | some at_ => ⟨⟨.eof, "", ⟨at_, g.cursor.offset⟩, g.newline, false⟩, [at_], g.cursor, g.cursor⟩
  | none => (scan limit g.cursor).found g.cursor g.newline

/-- The pattern of a regular expression, up to its closing slash. -/
def regexBody (start : Nat) : Nat → Bool → Cursor → Option Cursor
  | 0, _, _ => none
  | fuel + 1, inClass, c =>
    match c.chars with
    | [] => none
    | '\\' :: ch :: _ => if isLineBreak ch then none else regexBody start fuel inClass (c.skip 2)
    | ch :: _ =>
      if isLineBreak ch then none
      else if ch = '/' ∧ inClass = false then some (c.skip 1)
      else if ch = '[' then regexBody start fuel true (c.skip 1)
      else if ch = ']' then regexBody start fuel false (c.skip 1)
      else regexBody start fuel inClass (c.skip 1)

/-- The places just behind flags that are unknown or given twice. -/
def badFlags (offset : Nat) : List Char → List Char → List Nat
  | _, [] => []
  | seen, f :: fs =>
    let bad := !"dgimsuvy".toList.contains f || seen.contains f
    let rest := badFlags (offset + 1) (f :: seen) fs
    if bad then (offset + 1) :: rest else rest

/-- The regular expression that starts at a slash. -/
def regex (limit : Nat) (slash : Cursor) (newline : Bool) : Found :=
  match regexBody slash.offset limit false (slash.skip 1) with
  | none =>
    let rest := slash.skipWhile (!isLineBreak ·)
    ⟨⟨.regex, "", ⟨slash.offset, rest.offset⟩, newline, false⟩, [slash.offset], slash, rest⟩
  | some c =>
    let isFlag (f : Char) : Bool := f.isAlphanum || f == '_' || f == '$'
    let rest := c.skipWhile isFlag
    ⟨⟨.regex, "", ⟨slash.offset, rest.offset⟩, newline, false⟩,
      badFlags c.offset [] (c.chars.takeWhile isFlag), slash, rest⟩

/-- The next piece of a template, from the brace that closes an expression in it. -/
def templateRest (limit : Nat) (brace : Cursor) : Found :=
  (scanTemplate brace.offset limit true (brace.skip 1)).found brace false

/-- What a `>` and the characters behind it spell as an operator. -/
def joinAngles (angle : Cursor) (newline : Bool) : Found :=
  let spelled := [">>>=", ">>>", ">>=", ">>", ">=", ">"].find? fun m =>
    m.toList.isPrefixOf angle.chars
  match spelled with
  | some m => Scan.found { kind := .mark, text := m, rest := angle.skip m.length } angle newline
  | none => Scan.found { kind := .mark, text := ">", rest := angle.skip 1 } angle newline

/-- The first character of a mark that starts with `<`, as a token. -/
def firstAngle (angle : Cursor) (newline : Bool) : Found :=
  Scan.found { kind := .mark, text := "<", rest := angle.skip 1 } angle newline

end Token

end ZodGen.Script
