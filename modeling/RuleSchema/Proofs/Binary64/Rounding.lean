import Mathlib.Algebra.Group.Nat.Defs
import RuleSchema.Json.Basic
/-! Rounding to binary64 keeps order. A binary64 number on one side of a number is on the same
side of what that number is rounded to, so only a number that is rounded onto a bound can be
told from it by one and not by the other. -/
namespace RuleSchema

namespace Binary64

theorem nearestLe {num den k : Nat} (positive : 0 < den) (below : num ≤ k * den) :
    nearest num den ≤ k := by
  have quotient : num / den ≤ k := Nat.div_le_of_le_mul (Nat.mul_comm k den ▸ below)
  have split := Nat.div_add_mod num den
  unfold nearest
  by_cases last : num / den = k
  · have none : num % den = 0 := by
      rw [last, Nat.mul_comm] at split
      omega
    simp [none, positive, last]
  · dsimp only
    split <;> omega

theorem leNearest {num den k : Nat} (positive : 0 < den) (above : k * den ≤ num) :
    k ≤ nearest num den := by
  have quotient : k ≤ num / den := (Nat.le_div_iff_mul_le positive).mpr above
  unfold nearest
  dsimp only
  split <;> omega

-- The scale that rounding chooses leaves at most 53 digits, and 53 if it leaves out any.
theorem scaleBounds (n : Nat) :
    n < 2 ^ (bitLength n - 53 + 53) ∧
      (bitLength n - 53 = 0 ∨ 2 ^ (bitLength n - 53 + 52) ≤ n) := by
  by_cases zero : n = 0
  · simp [bitLength, zero]
  · have length : bitLength n = n.log2 + 1 := by simp [bitLength, zero]
    have lower : 2 ^ n.log2 ≤ n := Nat.log2_self_le zero
    have upper : n < 2 ^ (n.log2 + 1) := Nat.lt_log2_self
    rw [length]
    refine ⟨Nat.lt_of_lt_of_le upper (Nat.pow_le_pow_right (by decide) (by omega)), ?_⟩
    rcases Nat.lt_or_ge n.log2 53 with short | long
    · exact .inl (by omega)
    · rw [show n.log2 + 1 - 53 + 52 = n.log2 by omega]
      exact .inr lower

theorem magnitudeLt (x : Binary64) : x.magnitude < 2 ^ (x.scale + 53) := by
  rw [magnitude, Nat.pow_eq, Nat.pow_add, Nat.mul_comm]
  exact Nat.mul_lt_mul_of_pos_left x.fits.1 (Nat.pow_pos (by decide))

theorem onGrid {x : Binary64} {s : Nat} (fine : s ≤ x.scale) : ∃ k, x.magnitude = k * 2 ^ s := by
  refine ⟨x.mantissa * 2 ^ (x.scale - s), ?_⟩
  rw [Nat.mul_assoc, ← Nat.pow_add, Nat.sub_add_cancel fine]
  rfl

theorem finerBelow {x : Binary64} {s : Nat} (finer : x.scale < s) :
    x.magnitude < 2 ^ (s + 52) :=
  Nat.lt_of_lt_of_le x.magnitudeLt (Nat.pow_le_pow_right (by decide) (by omega))

section
variable {n s : Nat}

theorem mostDigits (upper : n < 2 ^ (s + 53)) : nearest n (2 ^ s) ≤ 2 ^ 53 := by
  refine nearestLe (Nat.pow_pos (by decide)) ?_
  rw [← Nat.pow_add, Nat.add_comm]
  exact Nat.le_of_lt upper

theorem leastDigits (long : 2 ^ (s + 52) ≤ n) : 2 ^ 52 ≤ nearest n (2 ^ s) := by
  refine leNearest (Nat.pow_pos (by decide)) ?_
  rw [← Nat.pow_add, Nat.add_comm]
  exact long

theorem nearestBetween (lower : s = 0 ∨ 2 ^ (s + 52) ≤ n) (x : Binary64) :
    (x.magnitude ≤ n → x.magnitude ≤ nearest n (2 ^ s) * 2 ^ s) ∧
      (n ≤ x.magnitude → nearest n (2 ^ s) * 2 ^ s ≤ x.magnitude) := by
  have positive : 0 < 2 ^ s := Nat.pow_pos (by decide)
  rcases Nat.lt_or_ge x.scale s with finer | fine
  · -- Such a number is below all numbers that need this scale.
    have small : x.magnitude < 2 ^ (s + 52) := finerBelow finer
    have large : 2 ^ (s + 52) ≤ n := lower.resolve_left (by omega)
    have scaled : 2 ^ 52 * 2 ^ s ≤ nearest n (2 ^ s) * 2 ^ s :=
      Nat.mul_le_mul_right _ (leastDigits large)
    rw [← Nat.pow_add, Nat.add_comm 52 s] at scaled
    exact ⟨fun _ => by omega, fun above => by omega⟩
  · obtain ⟨k, grid⟩ := onGrid fine
    rw [grid]
    exact ⟨fun below => Nat.mul_le_mul_right _ (leNearest positive below),
      fun above => Nat.mul_le_mul_right _ (nearestLe positive above)⟩

theorem reachedScale {top : Binary64} (lower : s = 0 ∨ 2 ^ (s + 52) ≤ n)
    (within : n ≤ top.magnitude) : s ≤ top.scale := by
  refine Nat.not_lt.mp fun finer => ?_
  have small : top.magnitude < 2 ^ (s + 52) := finerBelow finer
  have large : 2 ^ (s + 52) ≤ n := lower.resolve_left (by omega)
  omega

-- A mantissa that is rounded up to 2^53 is above all mantissas at its scale.
theorem carryRoom {top : Binary64} (lower : s = 0 ∨ 2 ^ (s + 52) ≤ n)
    (within : n ≤ top.magnitude) (full : nearest n (2 ^ s) = 2 ^ 53) : s < top.scale := by
  have reached : s ≤ top.scale := reachedScale lower within
  refine Nat.lt_of_le_of_ne reached fun last => ?_
  have positive : 0 < 2 ^ s := Nat.pow_pos (by decide)
  have grid : top.magnitude = top.mantissa * 2 ^ s := by rw [magnitude, Nat.pow_eq, ← last]
  have bound : nearest n (2 ^ s) ≤ top.mantissa := nearestLe positive (grid ▸ within)
  have small := top.fits.1
  omega

end

/-- Rounding a whole number of units, not above all binary64 numbers, keeps its sign and leaves
no binary64 number between the number and the result. -/
theorem ofUnitsRounds (negative : Bool) {n : Nat} {top : Binary64} (within : n ≤ top.magnitude) :
    ∃ y, ofUnits? negative n 1 = some y ∧ y.negative = negative ∧
      ∀ x : Binary64, (x.magnitude ≤ n → x.magnitude ≤ y.magnitude) ∧
        (n ≤ x.magnitude → y.magnitude ≤ x.magnitude) := by
  obtain ⟨upper, lower⟩ := scaleBounds n
  generalize chosen : bitLength n - 53 = s at upper lower
  have most : nearest n (2 ^ s) ≤ 2 ^ 53 := mostDigits upper
  have least : s = 0 ∨ 2 ^ 52 ≤ nearest n (2 ^ s) := lower.imp_right leastDigits
  have between := nearestBetween lower
  have reached : s ≤ top.scale := reachedScale lower within
  have carry : nearest n (2 ^ s) = 2 ^ 53 → s < top.scale := carryRoom lower within
  have topScale : top.scale ≤ 2045 := top.fits.2.1
  generalize kept : nearest n (2 ^ s) = q at most least between carry
  have rounding : ofUnits? negative n 1 =
      if h : Fits q s then some ⟨negative, q, s, h⟩
      else if h : q = 9007199254740992 ∧ s + 1 ≤ 2045 then
        some ⟨negative, 4503599627370496, s + 1, by decide, h.2, .inr (Nat.le_refl _)⟩
      else none := by
    simp only [ofUnits?, Nat.div_one, Nat.one_mul, Nat.pow_eq, chosen, kept]
  rw [rounding]
  rcases Nat.lt_or_eq_of_le most with small | full
  · have fits : Fits q s := ⟨small, by omega, least⟩
    exact ⟨_, dif_pos fits, rfl, between⟩
  · have room : s + 1 ≤ 2045 := Nat.le_trans (carry full) topScale
    have carries : ¬ Fits q s := fun fits => by
      have small := fits.1
      omega
    refine ⟨_, (dif_neg carries).trans (dif_pos ⟨full, room⟩), rfl, ?_⟩
    have carried : magnitude ⟨negative, 4503599627370496, s + 1, by decide, room,
        .inr (Nat.le_refl _)⟩ = q * 2 ^ s := by
      show 4503599627370496 * 2 ^ (s + 1) = q * 2 ^ s
      rw [full, Nat.pow_succ]
      omega
    rw [carried]
    exact between

theorem unitPositive : 0 < unitsPerOne := by decide +kernel

theorem unitsAbs (x : Binary64) : x.units.natAbs = x.magnitude := by
  unfold units
  split <;> simp only [Int.natAbs_neg, Int.natAbs_natCast]

/-- A binary64 number above all whole numbers of 64 bits. -/
def wholeTop : Binary64 := ⟨false, 4503599627370496, 1086, by decide⟩

end Binary64

namespace Number

/-- What a number is rounded to: no binary64 number lies between the two. -/
def RoundsTo (n : Number) (x : Binary64) : Prop :=
  ∀ y : Binary64, (y.units ≤ n.units → y.units ≤ x.units) ∧
    (n.units ≤ y.units → x.units ≤ y.units)

theorem wholeRounds (k : Whole) : ∃ x, Binary64.ofInt? k.value = some x ∧
    (Number.whole k).RoundsTo x := by
  have within : k.value.natAbs * Binary64.unitsPerOne ≤ Binary64.wholeTop.magnitude := by
    have size : k.value.natAbs ≤ 2 ^ 64 := by
      have range := k.inRange
      omega
    calc k.value.natAbs * Binary64.unitsPerOne ≤ 2 ^ 64 * Binary64.unitsPerOne :=
          Nat.mul_le_mul_right _ size
      _ = Binary64.wholeTop.magnitude := by decide +kernel
  obtain ⟨x, rounded, sign, between⟩ := Binary64.ofUnitsRounds (decide (k.value < 0)) within
  refine ⟨x, rounded, fun y => ?_⟩
  obtain ⟨below, above⟩ := between y
  have size : (k.value * (Binary64.unitsPerOne : Int)).natAbs =
      k.value.natAbs * Binary64.unitsPerOne := by
    rw [Int.natAbs_mul, Int.natAbs_natCast]
  have ownSize := x.unitsAbs
  have otherSize := y.unitsAbs
  have own : x.units = if k.value < 0 then -(x.magnitude : Int) else x.magnitude := by
    simp [Binary64.units, sign]
  have unit : (0 : Int) < Binary64.unitsPerOne := Int.natCast_pos.mpr Binary64.unitPositive
  rw [Number.units, own]
  rcases Int.lt_or_le k.value 0 with minus | plus
  · have value : k.value * (Binary64.unitsPerOne : Int) < 0 :=
      Int.mul_neg_of_neg_of_pos minus unit
    rw [if_pos minus]
    omega
  · have value : 0 ≤ k.value * (Binary64.unitsPerOne : Int) :=
      Int.mul_nonneg plus (Int.le_of_lt unit)
    rw [if_neg (Int.not_lt.mpr plus)]
    omega

theorem rounds (n : Number) : ∃ x, n.toBinary64? = some x ∧ n.RoundsTo x := by
  cases n with
  | binary x => exact ⟨x, rfl, fun y => ⟨id, id⟩⟩
  | whole k => exact wholeRounds k

end Number

end RuleSchema
