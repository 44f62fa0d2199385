import RuleSchema.Proofs.Binary64.Rounding
/-! Numbers that binary64 has exactly. Rounding leaves such a number as it is, so that its
value is the same before and after. -/
namespace RuleSchema

namespace Number

/-- A number has an exact binary64 form if some binary64 number has its value. -/
def IsExact (n : Number) : Prop := ∃ x : Binary64, x.units = n.units

theorem exactBinary {n : Number} (exact : n.IsExact) :
    ∃ x, n.toBinary64? = some x ∧ x.units = n.units := by
  obtain ⟨y, same⟩ := exact
  obtain ⟨x, rounded, between⟩ := n.rounds
  obtain ⟨above, below⟩ := between y
  have upper : x.units ≤ y.units := below (Int.le_of_eq same.symm)
  have lower : y.units ≤ x.units := above (Int.le_of_eq same)
  exact ⟨x, rounded, (Int.le_antisymm upper lower).trans same⟩

theorem isExactIff {n : Number} :
    n.IsExact ↔ n.toBinary64?.map Binary64.units = some n.units := by
  constructor
  · intro exact
    obtain ⟨x, rounded, units⟩ := exactBinary exact
    rw [rounded, Option.map_some, units]
  · intro same
    obtain ⟨x, _, units⟩ := Option.map_eq_some_iff.mp same
    exact ⟨x, units⟩

instance (n : Number) : Decidable n.IsExact := decidable_of_iff _ isExactIff.symm

end Number

/-- A value that is exact if it is a number. -/
def Json.IsExact (v : Json) : Prop := ∀ n, v = .number n → n.IsExact

theorem Json.numberExact {n : Number} : (Json.number n).IsExact ↔ n.IsExact := by
  constructor
  · intro exact
    exact exact n rfl
  · intro exact m same
    cases same
    exact exact

instance : (v : Json) → Decidable v.IsExact
  | .number _ => decidable_of_iff _ Json.numberExact.symm
  | .null | .bool _ | .string _ | .array _ | .object _ => .isTrue fun _ same => by cases same

end RuleSchema
