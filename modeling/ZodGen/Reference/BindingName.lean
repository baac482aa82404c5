import ZodGen.Reference.Basic
import ZodGen.Text.Alphabetic
import ZodGen.Text.Lowercase

/-!
# Names of validators

A component's validator is named after the last segment of a reference to it:
`#/components/schemas/Pet` gives `petSchema`. Characters that fit in no name become `_`.
-/

namespace ZodGen.BindingName

/-- What the first character of a component's name becomes. -/
def first (c : Char) : List Char :=
  if c.isDigit then ['_', c] else Text.lowercase c

/-- What any further character becomes. -/
def further (c : Char) : Char :=
  if Text.isAlphanumeric c || c == '_' || c == '$' then c else '_'

/-- A name must start with a letter, `_` or `$`. -/
def fixStart : List Char → List Char
  | [] => []
  | c :: cs => if Text.isAlphabetic c || c == '_' || c == '$' then c :: cs else '_' :: cs

/-- The validator's name for a component's name. -/
def ofName : List Char → List Char
  | [] => []
  | c :: cs => fixStart (first c ++ cs.map further) ++ "Schema".toList

/-- The text behind the last slash. -/
def lastSegment (cs : List Char) : List Char := (cs.reverse.takeWhile (· != '/')).reverse

/-- The validator's name for a reference. Without a last segment there is none. -/
def ofReference (text : String) : Outcome String :=
  let last := lastSegment text.toList
  let name := Pointer.decodeChars last
  if last.isEmpty || last.head? == some '#' || name.isEmpty then fail .invalidReference text
  else .ok (String.ofList (ofName name))

end ZodGen.BindingName
