import ZodGen.Number.Double

/-!
# Shortest decimal text of a double

A double owns the reals that round to it. Of the decimals in that interval the shortest is taken,
and of two equally short ones the nearer. `Digits` is such a decimal, `d₁.d₂d₃… · 10^power`.
-/

namespace ZodGen.Double

/-- A decimal number `d₁.d₂d₃… · 10^power`, written as the digits and the power of the first. -/
structure Digits where
  digits : Nat
  power : Int
  deriving DecidableEq, Repr

/-- An exact positive quotient. -/
structure Ratio where
  num : Nat
  den : Nat

/-- `n · 2^e` as a quotient. -/
def Ratio.ofDyadic (n : Nat) (e : Int) : Ratio :=
  if 0 ≤ e then ⟨n * Nat.pow 2 e.toNat, 1⟩ else ⟨n, Nat.pow 2 (-e).toNat⟩

/-- `n · 10^e` as a quotient. -/
def Ratio.ofDecimal (n : Nat) (e : Int) : Ratio :=
  if 0 ≤ e then ⟨n * Nat.pow 10 e.toNat, 1⟩ else ⟨n, Nat.pow 10 (-e).toNat⟩

def Ratio.lt (a b : Ratio) : Bool := a.num * b.den < b.num * a.den

def Ratio.distance (a b : Ratio) : Ratio :=
  ⟨(a.num * b.den - b.num * a.den) + (b.num * a.den - a.num * b.den), a.den * b.den⟩

/-- Whether `r` rounds to the double: it lies between the midpoints to both neighbours, which
belong to the double itself when its mantissa is even. -/
def owns (x : Double) (r : Ratio) : Bool :=
  let lower :=
    if x.mantissa = Nat.pow 2 52 ∧ x.exponent > leastExponent then
      Ratio.ofDyadic (4 * x.mantissa - 1) (x.exponent - 2)
    else
      Ratio.ofDyadic (2 * x.mantissa - 1) (x.exponent - 1)
  let upper := Ratio.ofDyadic (2 * x.mantissa + 1) (x.exponent - 1)
  if x.mantissa % 2 = 0 then !r.lt lower && !upper.lt r else lower.lt r && r.lt upper

/-- The power of ten of the leading digit: the greatest `p` from `p` downwards with `10^p ≤ v`. -/
def leadingPower (v : Ratio) : Nat → Int → Int
  | 0, p => p
  | fuel + 1, p => if v.lt (Ratio.ofDecimal 1 p) then leadingPower v fuel (p - 1) else p

/-- The decimal with `count` digits nearest to `v` among its two neighbours on that grid that the
double owns. -/
def onGrid? (x : Double) (v : Ratio) (power : Int) (count : Nat) : Option Nat :=
  let unit := power - (count - 1 : Nat)
  let u := Ratio.ofDecimal 1 unit
  let low := v.num * u.den / (v.den * u.num)
  let a := Ratio.ofDecimal low unit
  let b := Ratio.ofDecimal (low + 1) unit
  match owns x a && low != 0, owns x b with
  | true, true =>
    let da := v.distance a
    let db := v.distance b
    if da.lt db then some low
    else if db.lt da then some (low + 1)
    else if low % 2 = 0 then some low else some (low + 1)
  | true, false => some low
  | false, true => some (low + 1)
  | false, false => none

/-- First count of digits, from `count` on, for which the grid holds an owned decimal. -/
def firstGrid (x : Double) (v : Ratio) (power : Int) : Nat → Nat → Digits
  | 0, _ => ⟨0, 0⟩
  | fuel + 1, count =>
    match onGrid? x v power count with
    | some n =>
      -- The upper neighbour may have one digit more, a power of ten.
      if n = Nat.pow 10 count then ⟨1, power + 1⟩ else ⟨n, power⟩
    | none => firstGrid x v power fuel (count + 1)

/-- Drops the zeros at the end of the digits. -/
def trimZeros : Nat → Nat → Nat
  | 0, n => n
  | fuel + 1, n => if n ≠ 0 ∧ n % 10 = 0 then trimZeros fuel (n / 10) else n

/-- The shortest decimal that rounds to a double other than zero. -/
def shortest (x : Double) : Digits :=
  let v := Ratio.ofDyadic x.mantissa x.exponent
  -- The first guess is at least the leading power and at most two above it.
  let guess : Int := ((Nat.log2 x.mantissa : Int) + x.exponent + 1) * 30103 / 100000 + 1
  let power := leadingPower v 8 guess
  let found := firstGrid x v power 17 1
  ⟨trimZeros 20 found.digits, found.power⟩

/-- Decimal text. Powers from `-5` to `15` are written positionally with at least one digit behind
the point, all others as `d.ddde±p` with the sign always written. -/
def text (x : Double) : String :=
  let sign := if x.negative then "-" else ""
  if x.mantissa = 0 then sign ++ "0.0" else
  let found := x.shortest
  let ds := Nat.toDigits 10 found.digits
  let body : List Char :=
    if found.power < -5 ∨ 15 < found.power then
      let rest := if ds.length ≤ 1 then ds else ds.take 1 ++ '.' :: ds.drop 1
      rest ++ ['e', if found.power < 0 then '-' else '+'] ++ Nat.toDigits 10 found.power.natAbs
    else if found.power < 0 then
      '0' :: '.' :: (List.replicate (found.power.natAbs - 1) '0' ++ ds)
    else
      let whole := found.power.toNat + 1
      if ds.length ≤ whole then
        ds ++ List.replicate (whole - ds.length) '0' ++ ['.', '0']
      else
        ds.take whole ++ '.' :: ds.drop whole
  sign ++ String.ofList body

end ZodGen.Double
