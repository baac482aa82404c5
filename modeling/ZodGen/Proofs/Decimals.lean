import Mathlib.Tactic.Ring
import ZodGen.Json.Reader

/-!
# Decimal numerals

The digits of a number stand for it. Two rows of digits of one length stand for different numbers
unless they are the same, and rows of any length do unless they differ in zeros in front alone
(`ofDigits_eq_iff`).
-/

namespace ZodGen.Json

theorem ofDigits_eq_ofDigitChars (ds : List Char) : ofDigits ds = Nat.ofDigitChars 10 ds 0 := by
  rw [Nat.ofDigitChars_eq_foldl, ofDigits]
  simp only [Nat.mul_comm]

theorem ofDigits_toDigits (n : Nat) : ofDigits (Nat.toDigits 10 n) = n := by
  rw [ofDigits_eq_ofDigitChars, Nat.ofDigitChars_ten_toDigits]

theorem ofDigits_cons (d : Char) (ds : List Char) :
    ofDigits (d :: ds) = 10 ^ ds.length * (d.toNat - '0'.toNat) + ofDigits ds := by
  simp only [ofDigits_eq_ofDigitChars, Nat.ofDigitChars_cons, Nat.mul_zero, Nat.zero_add]
  exact Nat.ofDigitChars_eq_ofDigitChars_zero

theorem digit_bounds {d : Char} (h : d.isDigit = true) : 48 ≤ d.toNat ∧ d.toNat ≤ 57 := by
  simpa [Char.isDigit, UInt32.le_iff_toNat_le] using h

theorem ofDigits_lt : ∀ {ds : List Char}, (∀ d ∈ ds, d.isDigit = true) →
    ofDigits ds < 10 ^ ds.length
  | [], _ => by simp [ofDigits]
  | d :: ds, h => by
    obtain ⟨hd, hds⟩ := List.forall_mem_cons.1 h
    have ih := ofDigits_lt hds
    have hdigit : d.toNat - '0'.toNat ≤ 9 := by
      have := digit_bounds hd
      have hzero : '0'.toNat = 48 := rfl
      omega
    calc ofDigits (d :: ds) = 10 ^ ds.length * (d.toNat - '0'.toNat) + ofDigits ds :=
          ofDigits_cons d ds
      _ < 10 ^ ds.length * 9 + 10 ^ ds.length :=
          Nat.add_lt_add_of_le_of_lt (Nat.mul_le_mul_left _ hdigit) ih
      _ = 10 ^ (d :: ds).length := by rw [List.length_cons]; ring

/-- Digits of one length stand for one number only if they are the same. -/
theorem eq_of_ofDigits_eq : ∀ {cs ds : List Char}, (∀ c ∈ cs, c.isDigit = true) →
    (∀ d ∈ ds, d.isDigit = true) → cs.length = ds.length → ofDigits cs = ofDigits ds → cs = ds
  | [], [], _, _, _, _ => rfl
  | c :: cs, d :: ds, hcs, hds, hlen, heq => by
    obtain ⟨hc, hcs⟩ := List.forall_mem_cons.1 hcs
    obtain ⟨hd, hds⟩ := List.forall_mem_cons.1 hds
    have hlen : cs.length = ds.length := Nat.succ.inj hlen
    have hlt : ofDigits cs < 10 ^ ds.length := hlen ▸ ofDigits_lt hcs
    have hlt' := ofDigits_lt hds
    have hpow : 0 < 10 ^ ds.length := Nat.pow_pos (by decide)
    rw [ofDigits_cons, ofDigits_cons, hlen] at heq
    -- The first digit is the quotient by the power, the other digits are the remainder.
    have hdigit : c.toNat - '0'.toNat = d.toNat - '0'.toNat := by
      have h := congrArg (· / 10 ^ ds.length) heq
      simpa only [Nat.mul_add_div hpow, Nat.div_eq_of_lt hlt, Nat.div_eq_of_lt hlt',
        Nat.add_zero] using h
    have hrest : ofDigits cs = ofDigits ds := by
      have h := congrArg (· % 10 ^ ds.length) heq
      simpa only [Nat.mul_add_mod, Nat.mod_eq_of_lt hlt, Nat.mod_eq_of_lt hlt'] using h
    have hchar : c = d := by
      have := digit_bounds hc
      have := digit_bounds hd
      have hzero : '0'.toNat = 48 := rfl
      exact Char.toNat_inj.1 (by omega)
    rw [hchar, eq_of_ofDigits_eq hcs hds hlen hrest]

/-! ## Zeros in front -/

/-- Digits without the zeros in front. -/
def significant (ds : List Char) : List Char := ds.dropWhile (· == '0')

theorem ofDigits_significant : ∀ ds : List Char, ofDigits (significant ds) = ofDigits ds
  | [] => rfl
  | d :: ds => by
    by_cases hd : d = '0'
    · subst hd
      have ih := ofDigits_significant ds
      rw [significant, List.dropWhile_cons_of_pos rfl, ofDigits_cons, Nat.sub_self, Nat.mul_zero,
        Nat.zero_add]
      exact ih
    · rw [significant, List.dropWhile_cons_of_neg (by simpa using hd)]

theorem isDigit_of_mem_significant {ds : List Char} (h : ∀ d ∈ ds, d.isDigit = true) :
    ∀ d ∈ significant ds, d.isDigit = true :=
  fun d hd => h d ((List.dropWhile_sublist _).subset hd)

/-- A number with a first digit other than zero is at least the power of ten for the digits
behind. -/
theorem pow_le_ofDigits {d : Char} (ds : List Char) (hd : d.isDigit = true) (hne : d ≠ '0') :
    10 ^ ds.length ≤ ofDigits (d :: ds) := by
  have hpos : 1 ≤ d.toNat - '0'.toNat := by
    have := digit_bounds hd
    have hzero : '0'.toNat = 48 := rfl
    have : d.toNat ≠ '0'.toNat := fun h => hne (Char.toNat_inj.1 h)
    omega
  rw [ofDigits_cons]
  exact (Nat.le_mul_of_pos_right _ hpos).trans (Nat.le_add_right _ _)

/-- The larger number has no fewer significant digits. -/
theorem length_significant_le {cs ds : List Char} (hcs : ∀ c ∈ cs, c.isDigit = true)
    (hds : ∀ d ∈ ds, d.isDigit = true) (h : ofDigits cs ≤ ofDigits ds) :
    (significant cs).length ≤ (significant ds).length := by
  rcases hs : significant cs with _ | ⟨c, rest⟩
  · exact Nat.zero_le _
  have hc : c.isDigit = true := isDigit_of_mem_significant hcs c (by simp [hs])
  have hne : c ≠ '0' := by
    have := List.head?_dropWhile_not (· == '0') cs
    rw [significant] at hs
    simpa [hs] using this
  have hpow : 10 ^ rest.length < 10 ^ (significant ds).length :=
    calc 10 ^ rest.length ≤ ofDigits (significant cs) := hs ▸ pow_le_ofDigits rest hc hne
      _ ≤ ofDigits (significant ds) := by rwa [ofDigits_significant, ofDigits_significant]
      _ < _ := ofDigits_lt (isDigit_of_mem_significant hds)
  exact (Nat.pow_lt_pow_iff_right (by decide)).1 hpow

/-- Digits make the same number when they are the same up to leading zeros. -/
theorem ofDigits_eq_iff {cs ds : List Char} (hcs : ∀ c ∈ cs, c.isDigit = true)
    (hds : ∀ d ∈ ds, d.isDigit = true) :
    ofDigits cs = ofDigits ds ↔ significant cs = significant ds := by
  constructor
  · intro h
    refine eq_of_ofDigits_eq (isDigit_of_mem_significant hcs) (isDigit_of_mem_significant hds) ?_ ?_
    · exact Nat.le_antisymm (length_significant_le hcs hds h.le)
        (length_significant_le hds hcs h.ge)
    · rwa [ofDigits_significant, ofDigits_significant]
  · intro h
    rw [← ofDigits_significant cs, h, ofDigits_significant]

end ZodGen.Json
