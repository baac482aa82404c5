import ZodGen.Number.Shortest

/-!
# JSON values

Values keep their members in the order written. Setting a member that is already there keeps its
place and takes the new value, so a list of members built by `Assoc.set` has every key once.
-/

namespace ZodGen

/-- Members by key. Their order counts, so they are a list of pairs. -/
abbrev Assoc (α : Type) := List (String × α)

namespace Assoc

variable {κ α : Type} [DecidableEq κ]

def get? (key : κ) : List (κ × α) → Option α
  | [] => none
  | (k, v) :: rest => if k = key then some v else get? key rest

/-- Puts a value under a key: in the key's place when it is there, else at the end. -/
def set (key : κ) (value : α) : List (κ × α) → List (κ × α)
  | [] => [(key, value)]
  | (k, v) :: rest => if k = key then (k, value) :: rest else (k, v) :: set key value rest

/-- Sets all members of `other`, in order. -/
def extend (m other : List (κ × α)) : List (κ × α) :=
  other.foldl (fun acc (k, v) => set k v acc) m

/-- The members that a list of pairs describes: first place, last value. -/
def ofList (pairs : List (κ × α)) : List (κ × α) := extend [] pairs

def keys (m : List (κ × α)) : List κ := m.map Prod.fst

def values (m : List (κ × α)) : List α := m.map Prod.snd

end Assoc

/-- A JSON number: an integer between `-2^63` and `2^64`, or a finite double. -/
inductive Number where
  | int (n : Int)
  | double (x : Double)
  deriving DecidableEq, Repr, Inhabited

def Number.text : Number → String
  | .int n => toString n
  | .double x => x.text

/-- Whether an integer has an integer's place among JSON numbers: from `-2^63` to below `2^64`. -/
def Number.fitsInt (n : Int) : Bool := -9223372036854775808 ≤ n && n ≤ 18446744073709551615

inductive Value where
  | null
  | bool (b : Bool)
  | num (n : Number)
  | str (s : String)
  | arr (items : List Value)
  | obj (members : List (String × Value))
  deriving Repr, Inhabited

namespace Value

/-- The member of an object under a key. -/
def get? (key : String) : Value → Option Value
  | obj ms => Assoc.get? key ms
  | _ => none

def asStr? : Value → Option String
  | str s => some s
  | _ => none

def asBool? : Value → Option Bool
  | bool b => some b
  | _ => none

def asNum? : Value → Option Number
  | num n => some n
  | _ => none

def asArr? : Value → Option (List Value)
  | arr items => some items
  | _ => none

def asObj? : Value → Option (Assoc Value)
  | obj ms => some ms
  | _ => none

/-- The text under a key of an object. -/
def str? (v : Value) (key : String) : Option String := (v.get? key).bind asStr?

/-- The items under a key of an object. -/
def arr? (v : Value) (key : String) : Option (List Value) := (v.get? key).bind asArr?

/-- The members under a key of an object. -/
def obj? (v : Value) (key : String) : Option (Assoc Value) := (v.get? key).bind asObj?

/-- The text under `$ref`. -/
def ref? (v : Value) : Option String := v.str? "$ref"

end Value

end ZodGen
