import GraphqlCypher.Number.Binary64

/-! The shortest decimal that reads back as a given number.

Every number of 64 bits is the nearest one for a whole interval of reals, its ends
included when the mantissa is even. `shortest` looks for a decimal in it with one
digit, then with two, and so on: of the two decimals on such a grid that enclose
the number it takes the one inside the interval, and the nearer if both are.
Seventeen digits always suffice. -/
namespace GraphqlCypher

/-- Which of two equally near decimals is taken. -/
inductive Tie where
  | toEven
  | away
deriving DecidableEq, Repr

/-- A decimal `coefficient * 10 ^ exponent`. -/
structure Decimal where
  coefficient : Nat
  exponent : Int
deriving DecidableEq, Repr, Inhabited

namespace Decimal

/-- The same decimal without zeros at the end of its coefficient. -/
def dropZeros (coefficient : Nat) (exponent : Int) : Decimal :=
  if h : coefficient ≠ 0 ∧ coefficient % 10 = 0 then dropZeros (coefficient / 10) (exponent + 1)
  else ⟨coefficient, exponent⟩
termination_by coefficient
decreasing_by omega

/-- The digits of the coefficient. -/
def digits (d : Decimal) : List Char := Nat.toDigits 10 d.coefficient

/-- The power of ten of the first digit. -/
def magnitude (d : Decimal) : Int := d.exponent + d.digits.length - 1

end Decimal

namespace Binary64

/-- The real interval that rounds to `mantissa * 2 ^ exponent`, in units of
`1 / scale`: its lower end, the number itself and its upper end. -/
structure Neighbourhood where
  low : Nat
  centre : Nat
  high : Nat
  scale : Nat
  closed : Bool

/-- Below a power of two the numbers lie twice as dense as above it. -/
def neighbourhood (mantissa : Nat) (exponent : Int) : Neighbourhood :=
  let below := if mantissa = Nat.pow 2 52 ∧ leastExponent < exponent then 1 else 2
  let unit := if exponent < 2 then 1 else Nat.pow 2 (exponent - 2).toNat
  let scale := if exponent < 2 then Nat.pow 2 (2 - exponent).toNat else 1
  { low := (4 * mantissa - below) * unit
    centre := 4 * mantissa * unit
    high := (4 * mantissa + 2) * unit
    scale
    closed := mantissa % 2 = 0 }

/-- The least power of ten above `num / den`. -/
def powerAbove (num den : Nat) : Int :=
  if den ≤ num then digitCount (num / den)
  else
    let d := digitCount (den / num)
    if den = num * Nat.pow 10 (d - 1) then 2 - (d : Int) else 1 - (d : Int)

/-- The decimals with the given exponent on both sides of the centre, tried against
the interval. -/
def onGrid? (tie : Tie) (n : Neighbourhood) (exponent : Int) : Option Decimal :=
  let up := if exponent < 0 then Nat.pow 10 (-exponent).toNat else 1
  let unit := n.scale * if exponent < 0 then 1 else Nat.pow 10 exponent.toNat
  let low := n.low * up
  let centre := n.centre * up
  let high := n.high * up
  let inside (x : Nat) : Bool :=
    if n.closed then low ≤ x && x ≤ high else low < x && x < high
  let a := centre / unit
  let b := a + 1
  let below := inside (a * unit)
  let above := inside (b * unit)
  if below && above then
    let gapBelow := centre - a * unit
    let gapAbove := b * unit - centre
    let takeBelow := gapBelow < gapAbove ||
      (gapBelow == gapAbove && tie == .toEven && a % 2 == 0)
    some ⟨if takeBelow then a else b, exponent⟩
  else if below then some ⟨a, exponent⟩
  else if above then some ⟨b, exponent⟩
  else none

/-- The shortest decimal that rounds to `mantissa * 2 ^ exponent`, the nearest of
those as short. -/
def shortest (tie : Tie) (mantissa : Nat) (exponent : Int) : Decimal :=
  if mantissa = 0 then ⟨0, 0⟩
  else
    let n := neighbourhood mantissa exponent
    let top := powerAbove n.centre n.scale
    match (List.range 17).findSome? fun (i : Nat) => onGrid? tie n (top - (i + 1)) with
    | some d => Decimal.dropZeros d.coefficient d.exponent
    | none => ⟨0, 0⟩

end Binary64

/-! ### Writing a number -/

/-- How a number is written: where positional digits end and an exponent begins,
and whether a whole number keeps a fraction. -/
structure NumberStyle where
  tie : Tie
  /-- The powers of ten of the first digit that are written without exponent. -/
  positional : Int → Bool
  /-- Written after a whole number. -/
  wholeEnding : String

namespace NumberStyle

/-- The digits with the point where the exponent puts it. -/
def positionalText (style : NumberStyle) (d : Decimal) : String :=
  let digits := d.digits
  if 0 ≤ d.exponent then
    String.ofList (digits ++ List.replicate d.exponent.toNat '0') ++ style.wholeEnding
  else
    let places := (-d.exponent).toNat
    let padded := List.replicate (places + 1 - digits.length) '0' ++ digits
    let cut := padded.length - places
    String.ofList (padded.take cut) ++ "." ++ String.ofList (padded.drop cut)

/-- One digit before the point, and the power of ten with its sign. -/
def exponentText (d : Decimal) : String :=
  let sign := if d.magnitude < 0 then "-" else "+"
  let power := String.ofList (Nat.toDigits 10 d.magnitude.natAbs)
  match d.digits with
  | [] => ""
  | [c] => c.toString ++ "e" ++ sign ++ power
  | c :: rest => c.toString ++ "." ++ String.ofList rest ++ "e" ++ sign ++ power

def text (style : NumberStyle) (x : Binary64) : String :=
  let sign := if x.isNegative then "-" else ""
  match x with
  | .infinite _ => sign ++ "inf"
  | .finite _ mantissa exponent =>
    let d := Binary64.shortest style.tie mantissa exponent
    sign ++ if mantissa = 0 || style.positional d.magnitude then style.positionalText d
      else exponentText d

end NumberStyle

end GraphqlCypher
