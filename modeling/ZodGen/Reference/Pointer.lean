import ZodGen.Text.Percent
import ZodGen.Url.Host

/-!
# Segments of a pointer

A key stands in a pointer with `~` written `~0` and `/` written `~1`. Reading a segment undoes both
and then the percent encoding. A pointer is `#` followed by a slash before each segment.
-/

namespace ZodGen.Pointer

/-- A key as a segment: `~` becomes `~0` and `/` becomes `~1`. -/
def encodeChars : List Char → List Char
  | [] => []
  | c :: cs =>
    if c = '~' then '~' :: '0' :: encodeChars cs
    else if c = '/' then '~' :: '1' :: encodeChars cs
    else c :: encodeChars cs

/-- Writes `plain` for every `~mark`, from left to right. -/
def unescape (mark plain : Char) : List Char → List Char
  | [] => []
  | [c] => [c]
  | c :: d :: cs =>
    if c = '~' ∧ d = mark then plain :: unescape mark plain cs
    else c :: unescape mark plain (d :: cs)

/-- The key a segment stands for: first `~1`, then `~0`, then the percent encoding. -/
def decodeChars (cs : List Char) : List Char :=
  Text.Percent.decode (unescape '0' '~' (unescape '1' '/' cs))

def encodeSegment (key : String) : String := String.ofList (encodeChars key.toList)

def decodeSegment (segment : String) : String := String.ofList (decodeChars segment.toList)

def forComponent (kind name : String) : String :=
  "#/components/" ++ encodeSegment kind ++ "/" ++ encodeSegment name

/-- The keys of a pointer; none when the text is neither `#` nor starts with `#/`. -/
def keys? (text : String) : Option (List String) :=
  match text.toList with
  | ['#'] => some []
  | '#' :: '/' :: rest =>
    some ((Url.splitOn '/' rest).map fun segment => String.ofList (decodeChars segment))
  | _ => none

end ZodGen.Pointer
