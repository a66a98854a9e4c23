/-! Floating point numbers of 64 bits, as exact values.

A number is a sign, a mantissa and a power of two; nothing here goes through the
machine's own floats, so what is read and written can be reasoned about in `Nat`.
`ofDecimal` rounds a decimal to the nearest such number, and to the even mantissa
when two are equally near: `roundQuotient_near` says that no quotient is more
than one half away from its rounded value. -/
namespace GraphqlCypher

/-- A number of 64 bits: `± mantissa * 2 ^ exponent`, or an infinity. The mantissa
has 53 bits, or fewer at the least exponent. -/
inductive Binary64 where
  | finite ( negative : Bool) (mantissa : Nat) (exponent : Int)
  | infinite ( negative : Bool)
deriving DecidableEq, Repr, Inhabited

namespace Binary64

/-- The exponent of the smallest positive number. -/
def leastExponent : Int := -1074

/-- The exponent of the largest numbers. -/
def greatestExponent : Int := 971

/-- Zero, with its sign. -/
def zero (negative : Bool) : Binary64 := .finite negative 0 leastExponent

def isNegative : Binary64 → Bool
  | .finite s _ _ => s
  | .infinite s => s

/-! ### Rounding -/

/-- The nearest whole number to `num / den`, the even one if two are as near. -/
def roundQuotient (num den : Nat) : Nat :=
  let low := num / den
  let twice := 2 * (num % den)
  if twice < den then low
  else if den < twice then low + 1
  else if low % 2 = 0 then low else low + 1

/-- Rounding moves a quotient by at most one half. -/
theorem roundQuotient_near (num den : Nat) (h : 0 < den) :
    2 * num ≤ (2 * roundQuotient num den + 1) * den ∧
      (2 * roundQuotient num den) * den ≤ 2 * num + den := by
  have hdiv := Nat.div_add_mod num den
  have hmod := Nat.mod_lt num h
  simp only [roundQuotient]
  generalize num / den = low at *
  generalize num % den = r at *
  subst hdiv
  have e : (2 * low) * den = 2 * (den * low) := by rw [Nat.mul_assoc, Nat.mul_comm den low]
  have e' : (2 * (low + 1)) * den = 2 * (den * low) + 2 * den := by
    rw [Nat.mul_assoc, Nat.add_mul, Nat.mul_comm den low]; omega
  split
  · constructor
    · rw [Nat.add_mul, e]; omega
    · rw [e]; omega
  · split
    · constructor
      · rw [Nat.add_mul, e']; omega
      · rw [e']; omega
    · split
      · constructor
        · rw [Nat.add_mul, e]; omega
        · rw [e]; omega
      · constructor
        · rw [Nat.add_mul, e']; omega
        · rw [e']; omega

/-- The number of decimal digits. -/
def digitCount (n : Nat) : Nat := (Nat.toDigits 10 n).length

/-- The number with the rounded mantissa of `num / den` at the given exponent, or
at the next one when rounding reached it. -/
def atExponent (negative : Bool) (num den : Nat) (exponent : Int) : Binary64 :=
  let scaled := if exponent < 0 then roundQuotient (num * Nat.pow 2 (-exponent).toNat) den
    else roundQuotient num (den * Nat.pow 2 exponent.toNat)
  let (mantissa, exponent) :=
    if scaled = Nat.pow 2 53 then (Nat.pow 2 52, exponent + 1) else (scaled, exponent)
  if greatestExponent < exponent then .infinite negative else .finite negative mantissa exponent

/-- The number nearest to `± num / den`. -/
def ofQuotient (negative : Bool) (num den : Nat) : Binary64 :=
  if num = 0 then zero negative
  else
    let guess : Int := (num.log2 : Int) - den.log2 - 53
    let whole :=
      if guess < 0 then num * Nat.pow 2 (-guess).toNat / den
      else num / (den * Nat.pow 2 guess.toNat)
    let exponent := if whole < Nat.pow 2 53 then guess else guess + 1
    atExponent negative num den (max exponent leastExponent)

/-- The number nearest to `± coefficient * 10 ^ exponent`. Beyond every number it
is infinite, and below half the least one it is zero. -/
def ofDecimal (negative : Bool) (coefficient : Nat) (exponent : Int) : Binary64 :=
  let magnitude := exponent + digitCount coefficient
  if coefficient = 0 || magnitude < -330 then zero negative
  else if 310 < magnitude then .infinite negative
  else if exponent < 0 then ofQuotient negative coefficient (Nat.pow 10 (-exponent).toNat)
  else ofQuotient negative (coefficient * Nat.pow 10 exponent.toNat) 1

end Binary64

end GraphqlCypher
