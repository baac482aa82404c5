/-!
# Finite double-precision numbers

A finite double is a sign and `mantissa · 2^exponent`. `Double.nearest?` rounds a quotient of
natural numbers to the closest double, a tie to the even mantissa, and refuses what is too large.
All arithmetic is exact.
-/

namespace ZodGen

/-- A finite double. `nearest?` gives the form with a mantissa below `2^53` and the least exponent
that allows it, but never below `-1074`. -/
structure Double where
  negative : Bool
  mantissa : Nat
  exponent : Int
  deriving DecidableEq, Repr, Inhabited

namespace Double

/-- Exponent of the smallest positive double. -/
def leastExponent : Int := -1074

/-- Largest exponent of a finite double with a 53-bit mantissa. -/
def greatestExponent : Int := 971

/-- The quotient rounded to a natural number, a half to the even neighbour. -/
def roundDiv (num den : Nat) : Nat :=
  let q := num / den
  let r := num % den
  if 2 * r < den then q
  else if 2 * r > den then q + 1
  else if q % 2 = 0 then q else q + 1

/-- `num / den` divided by `2^e`, as a quotient of natural numbers. -/
def scaled (num den : Nat) (e : Int) : Nat × Nat :=
  if 0 ≤ e then (num, den * Nat.pow 2 e.toNat) else (num * Nat.pow 2 (-e).toNat, den)

/-- The exponent at which `num / den` has a mantissa of 53 bits, or the least exponent. -/
def exponentFor (num den : Nat) : Int :=
  let e : Int := Nat.log2 num - Nat.log2 den - 53
  let (n, d) := scaled num den e
  let e := if n / d ≥ Nat.pow 2 53 then e + 1 else e
  max e leastExponent

/-- The double closest to `± num / den`; none when that is beyond the largest. -/
def nearest? (negative : Bool) (num den : Nat) : Option Double :=
  if num = 0 then
    some ⟨negative, 0, leastExponent⟩
  else
    let e := exponentFor num den
    let (n, d) := scaled num den e
    let m := roundDiv n d
    let (m, e) := if m = Nat.pow 2 53 then (Nat.pow 2 52, e + 1) else (m, e)
    if e > greatestExponent then none else some ⟨negative, m, e⟩

/-- The double closest to `± digits · 10^power`. -/
def ofDecimal? (negative : Bool) (digits : Nat) (power : Int) : Option Double :=
  if digits = 0 then nearest? negative 0 1
  else if power > 400 then none
  -- Below this power every such number is under half of the smallest double.
  else if power + (Nat.log2 digits : Int) < -1200 then nearest? negative 0 1
  else if 0 ≤ power then nearest? negative (digits * Nat.pow 10 power.toNat) 1
  else nearest? negative digits (Nat.pow 10 (-power).toNat)

end Double

end ZodGen
