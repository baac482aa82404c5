import ZodGen.Url.Host

/-!
# Absolute URLs

Whether a text is an absolute URL by the living URL standard. The text is read without blanks and
controls at its ends and without tabs and line breaks anywhere. Paths and queries never fail, so
only scheme, user part, host and port are looked at.
-/

namespace ZodGen.Url

/-- The text that counts: neither controls and blanks at the ends nor tabs and line breaks. -/
def cleaned (cs : List Char) : List Char :=
  let outer (c : Char) : Bool := c.toNat ≤ 0x20
  let trimmed := ((cs.dropWhile outer).reverse.dropWhile outer).reverse
  trimmed.filter fun c => c != '\t' && c != '\n' && c != '\r'

def isSchemePart (c : Char) : Bool := c.isAlphanum || c == '+' || c == '-' || c == '.'

/-- The scheme in front of the first colon, in lower case, and what follows the colon. -/
def scheme? (cs : List Char) : Option (List Char × List Char) :=
  match cs with
  | [] => none
  | c :: _ =>
    if !c.isAlpha then none
    else match cs.dropWhile isSchemePart with
      | ':' :: rest => some ((cs.takeWhile isSchemePart).map Char.toLower, rest)
      | _ => none

/-- Schemes with rules of their own, besides `file`. -/
def specialSchemes : List String := ["http", "https", "ws", "wss", "ftp"]

def isSlash (c : Char) : Bool := c == '/' || c == '\\'

/-- Where the authority ends. -/
def endsAuthority (special : Bool) (c : Char) : Bool :=
  c == '/' || c == '?' || c == '#' || (special && c == '\\')

/-- A port: decimal digits up to 65535, or nothing, up to the path. -/
def isPort (cs : List Char) : Bool :=
  let ds := cs.takeWhile Char.isDigit
  let rest := cs.dropWhile Char.isDigit
  Json.ofDigits ds ≤ 65535 && match rest with
    | [] => true
    | c :: _ => c == '/' || c == '\\' || c == '?' || c == '#'

/-- Cuts host and port apart at the first colon outside brackets. -/
def splitHost : Bool → List Char → List Char × Option (List Char)
  | _, [] => ([], none)
  | inside, c :: cs =>
    if c = ':' ∧ inside = false then ([], some cs)
    else
      let (host, port) := splitHost (c == '[' || (inside && c != ']')) cs
      (c :: host, port)

/-- The part of the authority behind its last `@`, and whether anything stands before that `@`. -/
def splitUser (cs : List Char) : Bool × Bool × List Char :=
  let back := (cs.reverse.takeWhile (· != '@')).reverse
  let hasUser := cs.contains '@'
  (hasUser, hasUser && cs.length > back.length + 1, back)

/-- Whether what follows `//` has a valid authority. -/
def hasAuthority (special : Bool) (cs : List Char) : Bool :=
  let authority := cs.takeWhile (!endsAuthority special ·)
  let rest := cs.dropWhile (!endsAuthority special ·)
  let (hasUser, userGiven, hostPort) := splitUser authority
  let (host, port) := splitHost false hostPort
  let portOk := match port with
    | none => true
    | some p => isPort p && !host.isEmpty
  -- A lone `@` directly before the path is refused even where an empty host is allowed.
  let loneUser := hasUser && !userGiven && hostPort.isEmpty && !rest.isEmpty
  if special then !host.isEmpty && isHost host && portOk
  else isOpaqueHost host && portOk && !loneUser && !(userGiven && host.isEmpty)

/-- A letter and a colon or bar, which names a drive and no host. -/
def isDriveLetter : List Char → Bool
  | [a, b] => a.isAlpha && (b == ':' || b == '|')
  | _ => false

/-- Whether what follows `file:` is valid: only a host behind two slashes can fail. -/
def isFileTail (cs : List Char) : Bool :=
  match cs with
  | a :: b :: rest =>
    if isSlash a && isSlash b then
      let host := rest.takeWhile (!endsAuthority true ·)
      host.isEmpty || isDriveLetter host || isHost host
    else true
  | _ => true

def isAbsolute (text : String) : Bool :=
  match scheme? (cleaned text.toList) with
  | none => false
  | some (scheme, rest) =>
    let name := String.ofList scheme
    if name = "file" then isFileTail rest
    else if specialSchemes.contains name then hasAuthority true (rest.dropWhile isSlash)
    else match rest with
      | '/' :: '/' :: rest => hasAuthority false rest
      | _ => true

end ZodGen.Url
