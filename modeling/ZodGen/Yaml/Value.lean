import ZodGen.Yaml.Node

/-!
# YAML as JSON values

`parse?` reads a text. A plain scalar is null, a truth value or a number if it looks like one, and a
text otherwise; tags of the core schema ask for one of these, and all other tags of their own are
refused. Keys are the texts of scalars, and of pairs with the same key the last one counts, in the
place of the first. Aliases are expanded; collections nest at most 128 deep, and there are at most a
hundred expansions for each mark of the text.
-/

namespace ZodGen.Yaml

/-! ## Plain scalars -/

/-- An optional sign in front, and the rest. -/
def signed (cs : List Char) : Option Char × List Char :=
  match cs with
  | '+' :: rest => (some '+', rest)
  | '-' :: rest => (some '-', rest)
  | cs => (none, cs)

/-- Leading zeros in front of digits only: such a text is no number. -/
def isPadded (cs : List Char) : Bool :=
  match (signed cs).2 with
  | '0' :: d :: ds => (d :: ds).all Char.isDigit
  | _ => false

/-- A natural number in digits of a base, at least one of them. -/
def ofBase? (base : Nat) (ds : List Char) : Option Nat :=
  if ds.isEmpty then none
  else ds.foldlM (fun n d => do
    let v ← Json.hexValue? d
    if v < base then some (n * base + v) else none) 0

/-- The digits behind `0x`, `0o` or `0b` as a natural number; other digits are decimal. -/
def natural? (cs : List Char) : Option Nat :=
  match cs with
  | '0' :: 'x' :: rest => ofBase? 16 rest
  | '0' :: 'o' :: rest => ofBase? 8 rest
  | '0' :: 'b' :: rest => ofBase? 2 rest
  | cs => ofBase? 10 cs

/-- An integer of at most 128 bits. -/
def integer? (cs : List Char) : Option Int :=
  if isPadded cs then none
  else do
    let (sign, ds) := signed cs
    let n ← natural? ds
    if sign = some '-' then (if n ≤ Nat.pow 2 127 then some (-(n : Int)) else none)
    else if n < Nat.pow 2 128 then some n else none

/-- A decimal number with an optional point and exponent. -/
def decimal? (cs : List Char) : Option Double := do
  let (sign, cs) := signed cs
  let (whole, cs) := Json.digits cs
  let (frac, cs) := match cs with
    | '.' :: cs => Json.digits cs
    | cs => ([], cs)
  if whole.isEmpty ∧ frac.isEmpty then none
  else
    let exponent ← match cs with
      | [] => some (0 : Int)
      | e :: rest =>
        if e = 'e' ∨ e = 'E' then
          let (minus, ds) := signed rest
          if ds.isEmpty ∨ !ds.all Char.isDigit then none
          else some (if minus = some '-' then -(Json.ofDigits ds : Int) else Json.ofDigits ds)
        else none
    Double.ofDecimal? (sign = some '-') (Json.ofDigits (whole ++ frac))
      (exponent - (frac.length : Int))

/-- Texts of numbers that are not finite. -/
def infinities : List String :=
  [".inf", ".Inf", ".INF", "+.inf", "+.Inf", "+.INF", "-.inf", "-.Inf", "-.INF", ".nan", ".NaN",
    ".NAN"]

/-- A number that need not be an integer. One that is not finite is null. -/
def float? (text : String) : Option Value :=
  if infinities.contains text then some .null
  else (decimal? text.toList).map fun x => .num (.double x)

def null? (text : String) : Option Value :=
  if ["null", "Null", "NULL", "~"].contains text then some .null else none

def bool? (text : String) : Option Value :=
  if ["true", "True", "TRUE"].contains text then some (.bool true)
  else if ["false", "False", "FALSE"].contains text then some (.bool false)
  else none

/-- An integer as a value. Fails if it does not fit. -/
def ofInteger? (n : Int) : Option Value :=
  if Number.fitsInt n then some (.num (.int n)) else none

/-- The value of a plain scalar without tag. Fails for an integer that does not fit. -/
def ofPlain? (text : String) : Option Value :=
  if text.isEmpty then some .null
  else match (null? text).or (bool? text) with
    | some v => some v
    | none =>
      match integer? text.toList with
      | some n => ofInteger? n
      | none =>
        if isPadded text.toList then some (.str text) else some ((float? text).getD (.str text))

def ofScalar? (tag : Option String) (isPlain : Bool) (text : String) : Option Value :=
  match tag with
  | none => if isPlain then ofPlain? text else some (.str text)
  | some "tag:yaml.org,2002:bool" => bool? text
  | some "tag:yaml.org,2002:int" => (integer? text.toList).bind ofInteger?
  | some "tag:yaml.org,2002:float" => float? text
  | some "tag:yaml.org,2002:null" => null? text
  | some tag => if tag.toList.head? = some '!' then none else some (.str text)

/-! ## Nodes -/

/-- A reader of values that counts expanded aliases. -/
abbrev Expansion := StateT Nat Option

/-- The node that a node stands for. -/
def expand (d : Document) : Node → Expansion Node
  | .aliasOf number => do
    let n := (← get) + 1
    set n
    if d.size * 100 < n then failure
    match d.find? number with
    | some node => return node
    | none => failure
  | node => return node

/-- Whether a collection's tag asks for something that a value cannot be. -/
def hasOwnTag (tag : Option String) : Bool := (tag.bind (·.toList.head?)) == some '!'

def keyText (d : Document) (node : Node) : Expansion String := do
  match ← expand d node with
  | .scalar _ _ text => return text
  | _ => failure

/-- The value of a node whose collections nest at most so deep. -/
def ofNode (d : Document) : Nat → Node → Expansion Value
  | 0, node => do
    match ← expand d node with
    | .scalar tag isPlain text => StateT.lift (ofScalar? tag isPlain text)
    | _ => failure
  | depth + 1, node => do
    match ← expand d node with
    | .scalar tag isPlain text => StateT.lift (ofScalar? tag isPlain text)
    | .sequence tag items =>
      if hasOwnTag tag then failure
      return .arr (← items.mapM (ofNode d depth))
    | .mapping tag pairs =>
      if hasOwnTag tag then failure
      let members ← pairs.mapM fun (k, v) => do return (← keyText d k, ← ofNode d depth v)
      return .obj (Assoc.ofList members)
    | .aliasOf _ => failure

/-- How deep collections may nest. -/
def depthLimit : Nat := 128

/-- The value of a text with at most one document. -/
def parse? (text : String) : Option Value := do
  let d ← Document.ofTokens? (← Token.ofText? text)
  match d.root with
  | none => some .null
  | some root => (ofNode d depthLimit root).run' 0

end ZodGen.Yaml
