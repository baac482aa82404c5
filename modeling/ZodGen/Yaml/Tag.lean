import ZodGen.Json.Reader
import ZodGen.Text.Utf8
import ZodGen.Yaml.Cursor

/-!
# Tags, anchors and directives

The readers give what they read and the place behind it.
-/

namespace ZodGen.Yaml

/-- Characters of names. -/
def isWord (c : Char) : Bool := c.isAlphanum || c == '_' || c == '-'

/-- Characters of a tag besides those of names. -/
def tagMarks : List Char := ";/?:@&=+$.!~*'()%".toList

/-- The name of an anchor or alias, from behind its mark. -/
def anchorName? (c : Cursor) : Option (String × Cursor) :=
  let name := c.chars.takeWhile isWord
  let next := c.skip name.length
  let ends := next.gapAt 0 || (next.head?.map ("?:,]\x7d%@\x60".toList.contains ·)).getD false
  if name.isEmpty || !ends then none else some (String.ofList name, next)

/-- A byte behind a percent sign. -/
def octet? : List Char → Option (Nat × List Char)
  | '%' :: a :: b :: rest => do some ((← Json.hexValue? a) * 16 + (← Json.hexValue? b), rest)
  | _ => none

/-- How many bytes a character takes that starts with this one. -/
def octetWidth? (b : Nat) : Option Nat :=
  if b < 0x80 then some 1
  else if 0xC0 ≤ b ∧ b < 0xE0 then some 2
  else if 0xE0 ≤ b ∧ b < 0xF0 then some 3
  else if 0xF0 ≤ b ∧ b < 0xF8 then some 4
  else none

/-- That many bytes, each behind a percent sign. -/
def octets? : Nat → List Char → Option (List Nat × List Char)
  | 0, cs => some ([], cs)
  | n + 1, cs => do
    let (b, cs) ← octet? cs
    let (bs, cs) ← octets? n cs
    some (b :: bs, cs)

/-- The characters of a tag, percent signs decoded, and how long they are written. `verbatim` allows
commas and brackets. -/
def tagText (verbatim : Bool) : Nat → List Char → Nat → Cursor → Option (List Char × Nat × Cursor)
  | 0, _, _, _ => none
  | limit + 1, acc, n, c =>
    match c.chars with
    | [] => some (acc.reverse, n, c)
    | ch :: _ =>
      if ch = '%' then do
        let (b, _) ← octet? c.chars
        let width ← octetWidth? b
        let (bs, _) ← octets? width c.chars
        let text ← Text.Utf8.decode? bs
        tagText verbatim limit (text.reverse ++ acc) (n + 1) (c.skip (3 * width))
      else if isWord ch || tagMarks.contains ch || (verbatim && ",[]".toList.contains ch) then
        tagText verbatim limit (ch :: acc) (n + 1) (c.skip 1)
      else some (acc.reverse, n, c)

/-- The handle of a tag: an exclamation mark, a name, and perhaps another mark. -/
def tagHandle? (c : Cursor) : Option (List Char × Cursor) :=
  if c.at_ '!' then
    let name := (c.skip 1).chars.takeWhile isWord
    let next := c.skip (1 + name.length)
    if next.at_ '!' then some ('!' :: name ++ ['!'], next.skip 1) else some ('!' :: name, next)
  else none

/-- A tag as it is written: the handle in front, empty if there is none, and the rest. -/
structure Tag where
  handle : String
  suffix : String
  deriving DecidableEq, Repr

/-- A tag in angle brackets. -/
def verbatimTag? (limit : Nat) (c : Cursor) : Option (Tag × Cursor) := do
  let (text, n, c) ← tagText true limit [] 0 (c.skip 2)
  if n = 0 || !c.at_ '>' then none else some (⟨"", String.ofList text⟩, c.skip 1)

/-- A tag with a handle. One mark alone is no handle but the tag. -/
def shortTag? (limit : Nat) (c : Cursor) : Option (Tag × Cursor) := do
  let (handle, next) ← tagHandle? c
  if 2 ≤ handle.length ∧ handle.getLast? = some '!' then
    let (text, n, next) ← tagText false limit [] 0 next
    if n = 0 then none else some (⟨String.ofList handle, String.ofList text⟩, next)
  else
    let (text, _, next) ← tagText false limit [] 0 next
    let suffix := handle.tail ++ text
    some (if suffix.isEmpty then ⟨"", "!"⟩ else ⟨"!", String.ofList suffix⟩, next)

/-- A tag, from its exclamation mark on. -/
def tag? (inFlow : Bool) (limit : Nat) (c : Cursor) : Option (Tag × Cursor) := do
  let (tag, next) ← if (c.skip 1).at_ '<' then verbatimTag? limit c else shortTag? limit c
  if next.gapAt 0 || (inFlow && next.at_ ',') then some (tag, next) else none

/-! ## Directives -/

/-- What a directive says. -/
inductive Directive where
  | version (major minor : Nat)
  | tag (handle lead : String)

/-- A number of at most nine digits. -/
def versionNumber? (c : Cursor) : Option (Nat × Cursor) :=
  let (ds, _) := Json.digits c.chars
  if ds.isEmpty ∨ 9 < ds.length then none else some (Json.ofDigits ds, c.skip ds.length)

/-- The version behind `%YAML`. -/
def version? (c : Cursor) : Option (Directive × Cursor) := do
  let (major, c) ← versionNumber? (c.skipWhile isBlank)
  if !c.at_ '.' then none
  else
    let (minor, c) ← versionNumber? (c.skip 1)
    some (.version major minor, c)

/-- The handle and what it stands for behind `%TAG`. -/
def tagDirective? (limit : Nat) (c : Cursor) : Option (Directive × Cursor) := do
  let (handle, c) ← tagHandle? (c.skipWhile isBlank)
  if handle ≠ ['!'] ∧ handle.getLast? ≠ some '!' then none
  else if !((c.head?.map isBlank).getD false) then none
  else
    let (lead, n, c) ← tagText true limit [] 0 (c.skipWhile isBlank)
    if n = 0 || !c.gapAt 0 then none
    else some (.tag (String.ofList handle) (String.ofList lead), c)

/-- A directive, from its percent sign to the end of its line. -/
def directive? (limit : Nat) (c : Cursor) : Option (Directive × Cursor) := do
  let name := (c.skip 1).chars.takeWhile isWord
  let c := c.skip (1 + name.length)
  if !c.gapAt 0 then none
  else
    let (d, c) ← match String.ofList name with
      | "YAML" => version? c
      | "TAG" => tagDirective? limit c
      | _ => none
    let c := c.skipWhile isBlank
    let c := if c.at_ '#' then c.skipWhile (!isBreak ·) else c
    if c.atLineEnd then some (d, c.passBreak.2) else none

end ZodGen.Yaml
