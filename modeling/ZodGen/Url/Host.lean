import ZodGen.Text.Percent

/-!
# Hosts of absolute URLs

Which texts are hosts, by the living URL standard: an address in brackets, an address of four
numbers, a domain name, or the opaque host of a scheme without rules of its own.
-/

namespace ZodGen.Url

/-- Splits a text at every occurrence of a character. -/
def splitOn (sep : Char) : List Char → List (List Char)
  | [] => [[]]
  | c :: cs =>
    if c = sep then [] :: splitOn sep cs
    else match splitOn sep cs with
      | [] => [[c]]
      | first :: rest => (c :: first) :: rest

/-- Value of a digit in a base of at most sixteen. -/
def digitIn? (base : Nat) (c : Char) : Option Nat :=
  (Json.hexValue? c).filter (· < base)

/-- A number of an address: decimal, octal after `0`, hexadecimal after `0x`. -/
def addressNumber? (cs : List Char) : Option Nat :=
  let read (base : Nat) (ds : List Char) : Option Nat :=
    (ds.mapM (digitIn? base)).map fun ds => ds.foldl (fun n d => n * base + d) 0
  match cs with
  | [] => none
  | '0' :: 'x' :: rest => read 16 rest
  | '0' :: 'X' :: rest => read 16 rest
  | '0' :: c :: rest => read 8 (c :: rest)
  | cs => read 10 cs

/-- The parts between dots, without an empty one at the end. -/
def addressParts (cs : List Char) : List (List Char) :=
  let parts := splitOn '.' cs
  if parts.getLast? == some [] then parts.dropLast else parts

/-- Whether the last part of a domain is a number, which makes it an address. -/
def endsInNumber (cs : List Char) : Bool :=
  match (addressParts cs).getLast? with
  | none => false
  | some last => (!last.isEmpty && last.all Char.isDigit) || (addressNumber? last).isSome

/-- Four numbers or fewer, the last of which fills the bytes that the others leave. -/
def isAddress4 (cs : List Char) : Bool :=
  let parts := addressParts cs
  match parts.mapM addressNumber? with
  | none => false
  | some numbers =>
    match numbers.getLast? with
    | none => false
    | some last =>
      numbers.length ≤ 4 && numbers.dropLast.all (· ≤ 255) &&
        last < Nat.pow 256 (5 - numbers.length)

/-- Four decimal numbers up to 255, at the end of an address in brackets. -/
def isDottedQuad (cs : List Char) : Bool :=
  let parts := splitOn '.' cs
  parts.length == 4 && parts.all fun p =>
    !p.isEmpty && p.all Char.isDigit && (p.length == 1 || p.head? != some '0') &&
      Json.ofDigits p ≤ 255

/-- Up to four hexadecimal digits. -/
def isPiece (cs : List Char) : Bool :=
  !cs.isEmpty && cs.length ≤ 4 && cs.all fun c => (Json.hexValue? c).isSome

/-- How many of the eight pieces a list of texts between colons fills: a dotted quad fills two and
may only stand last. -/
def pieceCount? : List (List Char) → Option Nat
  | [] => some 0
  | [last] =>
    if isPiece last then some 1 else if last.contains '.' && isDottedQuad last then some 2 else none
  | p :: rest => if isPiece p then (pieceCount? rest).map (· + 1) else none

/-- Splits at the first `::`. -/
def splitGap? : List Char → Option (List Char × List Char)
  | [] => none
  | ':' :: ':' :: rest => some ([], rest)
  | c :: rest => (splitGap? rest).map fun (a, b) => (c :: a, b)

/-- Eight pieces, or fewer around one `::`. -/
def isAddress6 (cs : List Char) : Bool :=
  match splitGap? cs with
  | none => pieceCount? (splitOn ':' cs) == some 8
  | some (front, back) =>
    let count (part : List Char) (isFront : Bool) : Option Nat :=
      if part.isEmpty then some 0
      else if isFront && (part.contains '.') then none
      else pieceCount? (splitOn ':' part)
    match count front true, count back false with
    | some a, some b => a + b ≤ 7
    | _, _ => false

/-- A host in brackets, given from its opening bracket on. -/
def isBracketed (cs : List Char) : Bool :=
  match cs with
  | '[' :: rest => rest.getLast? == some ']' && isAddress6 rest.dropLast
  | _ => false

/-- A character that no domain may hold: controls, blanks and the marks of a URL's structure. -/
def forbiddenInDomain (c : Char) : Bool :=
  c.toNat < 0x21 || c.toNat == 0x7F || c == Char.ofNat 0xFFFD ||
    "#/:<>?@[\\]^|%".toList.contains c

/-- A character that no opaque host may hold. -/
def forbiddenInOpaque (c : Char) : Bool :=
  c.toNat == 0 || "\t\n\r #/:<>?@[\\]^|".toList.contains c

/-- The host of a scheme with rules of its own. -/
def isHost (cs : List Char) : Bool :=
  if cs.head? == some '[' then isBracketed cs
  else
    let domain := Text.Percent.decode cs
    !domain.isEmpty && !domain.any forbiddenInDomain &&
      (!endsInNumber domain || isAddress4 domain)

/-- The host of any other scheme; it may be empty. -/
def isOpaqueHost (cs : List Char) : Bool :=
  if cs.head? == some '[' then isBracketed cs else !cs.any forbiddenInOpaque

end ZodGen.Url
