import RuleSchema.Binary64.Basic
/-! Decimal texts of binary64 numbers: the fewest digits that are read back as the number,
of those the nearest, and a layout that says which exponents are written out in places. -/
namespace RuleSchema.Binary64

/-- The number `digits * 10 ^ exponent`. -/
structure Decimal where
  digits : Nat
  exponent : Int
  deriving DecidableEq, Repr

/-- Ends of the interval that rounds to a positive number, in quarter units. The gap to the
number below is half as wide where the scale changes. -/
def lowerEnd (x : Binary64) : Nat :=
  (4 * x.mantissa - (if x.mantissa = 4503599627370496 ∧ x.scale ≠ 0 then 1 else 2)) *
    Nat.pow 2 x.scale

def upperEnd (x : Binary64) : Nat := (4 * x.mantissa + 2) * Nat.pow 2 x.scale

/-- Whether `num / den` quarter units are read back as the number. The ends belong to the
interval of an even mantissa. -/
def readsBack (x : Binary64) (num den : Nat) : Bool :=
  if x.mantissa % 2 = 0 then x.lowerEnd * den ≤ num && num ≤ x.upperEnd * den
  else x.lowerEnd * den < num && num < x.upperEnd * den

/-- Place of the leading decimal digit of a positive number: 0 for ones, 1 for tens. -/
def leadingPlace (x : Binary64) : Int :=
  decimalLength (x.magnitude * Nat.pow 10 324 / unitsPerOne) - 325

/-- The nearest multiple of `10 ^ exponent` that is read back as the number, if one of its
two neighbours on that grid is. -/
def onGrid? (x : Binary64) (exponent : Int) : Option Decimal :=
  -- A grid step is `stepNum / stepDen` units.
  let stepNum := unitsPerOne * Nat.pow 10 exponent.toNat
  let stepDen := Nat.pow 10 (-exponent).toNat
  let below := x.magnitude * stepDen / stepNum
  let fits (n : Nat) := x.readsBack (4 * n * stepNum) stepDen
  let closest := nearest (x.magnitude * stepDen) stepNum
  if fits closest then some ⟨closest, exponent⟩
  else if fits below then some ⟨below, exponent⟩
  else if fits (below + 1) then some ⟨below + 1, exponent⟩
  else none

/-- Tries finer grids from the given one on. -/
def firstGrid (x : Binary64) : Nat → Int → Decimal
  | 0, exponent => ⟨x.magnitude * Nat.pow 10 (-exponent).toNat / unitsPerOne, exponent⟩
  | n + 1, exponent => (x.onGrid? exponent).getD (firstGrid x n (exponent - 1))

/-- Seventeen digits always suffice. -/
def shortest (x : Binary64) : Decimal :=
  if x.mantissa = 0 then ⟨0, 0⟩ else firstGrid x 17 x.leadingPlace

structure Layout where
  /-- Least and greatest place of the leading digit in positional notation. -/
  leastPlace : Int
  greatestPlace : Int
  exponentMark : List Char
  plusSign : Bool
  deriving Repr

def Layout.power (layout : Layout) (n : Int) : List Char :=
  let sign := if n < 0 then ['-'] else if layout.plusSign then ['+'] else []
  layout.exponentMark ++ sign ++ Nat.toDigits 10 n.natAbs

/-- Positional notation keeps one digit after the point; with an exponent the point stands
after the first digit and only if others follow. -/
def Layout.write (layout : Layout) (negative : Bool) (d : Decimal) : List Char :=
  let all := Nat.toDigits 10 d.digits
  let ds := (all.reverse.dropWhile (· = '0')).reverse
  let place : Int := all.length - 1 + d.exponent
  let body :=
    if d.digits = 0 then ['0', '.', '0']
    else if layout.leastPlace ≤ place ∧ place ≤ layout.greatestPlace then
      if place < 0 then ['0', '.'] ++ List.replicate (place.natAbs - 1) '0' ++ ds
      else
        let whole := ds.take (place.toNat + 1)
        let fraction := ds.drop (place.toNat + 1)
        whole ++ List.replicate (place.toNat + 1 - whole.length) '0' ++ ['.'] ++
          (if fraction.isEmpty then ['0'] else fraction)
    else match ds with
      | [] => []
      | [d] => d :: layout.power place
      | d :: fraction => d :: '.' :: fraction ++ layout.power place
  if negative then '-' :: body else body

/-- Positional from 10^-5 up to, but not including, 10^16; then `1.5e+16`. -/
def layout : Layout := ⟨-5, 15, ['e'], true⟩

def text (x : Binary64) : String := String.ofList (layout.write x.negative x.shortest)

end RuleSchema.Binary64
