/-! Finite binary64 numbers without any rounding hidden in them: a number is a sign and a
whole multiple of the least positive one, 2^-1074. Order and equality are those of the
multiples, so they are exact; rounding is to the nearest number, a tie to the even one. -/
namespace RuleSchema

/-- Mantissa and scale of a finite number: less than 2^53, and at least 2^52 unless the scale
is the least one. -/
def Fits (mantissa scale : Nat) : Prop :=
  mantissa < 9007199254740992 ∧ scale ≤ 2045 ∧ (scale = 0 ∨ 4503599627370496 ≤ mantissa)

instance (mantissa scale : Nat) : Decidable (Fits mantissa scale) := by
  unfold Fits; infer_instance

/-- The number `mantissa * 2 ^ scale` in units of 2^-1074, with a sign of its own. -/
structure Binary64 where
  negative : Bool
  mantissa : Nat
  scale : Nat
  fits : Fits mantissa scale
  deriving DecidableEq, Repr

namespace Binary64

def unitsPerOne : Nat := Nat.pow 2 1074

def magnitude (x : Binary64) : Nat := x.mantissa * Nat.pow 2 x.scale

/-- The value as a multiple of 2^-1074. Both zeros have the value 0. -/
def units (x : Binary64) : Int := if x.negative then -x.magnitude else x.magnitude

instance : LE Binary64 := ⟨fun x y => x.units ≤ y.units⟩
instance : LT Binary64 := ⟨fun x y => x.units < y.units⟩
instance (x y : Binary64) : Decidable (x ≤ y) := inferInstanceAs (Decidable (x.units ≤ y.units))
instance (x y : Binary64) : Decidable (x < y) := inferInstanceAs (Decidable (x.units < y.units))

def zero (negative : Bool) : Binary64 := ⟨negative, 0, 0, by decide⟩

instance : Inhabited Binary64 := ⟨zero false⟩

/-- The whole number nearest to a quotient, the even one of two. -/
def nearest (num den : Nat) : Nat :=
  let q := num / den
  let r := num % den
  if 2 * r < den ∨ (2 * r = den ∧ q % 2 = 0) then q else q + 1

def bitLength (n : Nat) : Nat := if n = 0 then 0 else n.log2 + 1

/-- The number nearest to `num / den` units, if the largest finite number is not passed. -/
def ofUnits? (negative : Bool) (num den : Nat) : Option Binary64 :=
  let scale := bitLength (num / den) - 53
  let mantissa := nearest num (den * Nat.pow 2 scale)
  if h : Fits mantissa scale then some ⟨negative, mantissa, scale, h⟩
  else if h : mantissa = 9007199254740992 ∧ scale + 1 ≤ 2045 then
    some ⟨negative, 4503599627370496, scale + 1, by decide, h.2, .inr (Nat.le_refl _)⟩
  else none

def ofInt? (n : Int) : Option Binary64 := ofUnits? (n < 0) (n.natAbs * unitsPerOne) 1

def mul? (x y : Binary64) : Option Binary64 :=
  ofUnits? (x.negative != y.negative) (x.magnitude * y.magnitude) unitsPerOne

def div? (x y : Binary64) : Option Binary64 :=
  if y.mantissa = 0 then none
  else ofUnits? (x.negative != y.negative) (x.magnitude * unitsPerOne) y.magnitude

def decimalLength (n : Nat) : Nat := (Nat.toDigits 10 n).length

/-- The number nearest to `digits * 10 ^ exponent`. Exponents out of reach are decided by
the place of the leading digit alone. -/
def ofScientific? (negative : Bool) (digits : Nat) (exponent : Int) : Option Binary64 :=
  let place : Int := decimalLength digits + exponent
  if digits = 0 ∨ place < -330 then some (zero negative)
  else if 310 < place then none
  else if exponent < 0 then
    ofUnits? negative (digits * unitsPerOne) (Nat.pow 10 exponent.natAbs)
  else ofUnits? negative (digits * Nat.pow 10 exponent.natAbs * unitsPerOne) 1

end Binary64

end RuleSchema
