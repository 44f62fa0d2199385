/-! Random identifiers in the form 8-4-4-4-12: 122 bits, a four as the version and two
fixed bits as the variant. -/
namespace RuleSchema.Identifier

/-- Digit `k` of a number in base sixteen, the lowest being digit 0. -/
def digit (n k : Nat) : Char := Nat.digitChar (n / Nat.pow 16 k % 16)

/-- `count` digits that end with digit `last`, highest first. -/
def digits (n last count : Nat) : List Char :=
  ((List.range count).map fun k => digit n (last + k)).reverse

/-- The identifier whose free bits are those of the number. -/
def ofBits (n : Nat) : String :=
  let variant := Nat.digitChar (8 + n / Nat.pow 16 30 % 4)
  String.ofList (digits n 22 8 ++ ['-'] ++ digits n 18 4 ++ ['-', '4'] ++ digits n 15 3 ++
    ['-', variant] ++ digits n 12 3 ++ ['-'] ++ digits n 0 12)

end RuleSchema.Identifier
