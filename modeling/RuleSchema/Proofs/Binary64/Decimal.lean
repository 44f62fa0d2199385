import RuleSchema.Binary64.Numeral
import RuleSchema.Json.Basic
import RuleSchema.Proofs.Text.Paths
/-! Decimal texts of whole numbers. Such a text has no blanks, and as the literal of a rule it is
rounded just as the number is. -/
namespace RuleSchema

namespace Text

theorem trimUnblank {cs : List Char} (unblank : ∀ c ∈ cs, isBlank c = false) :
    trimChars cs = cs :=
  FreshEnds.trimChars ⟨fun c first => unblank c (List.mem_of_head? first),
    fun c last => unblank c (List.mem_of_getLast? last)⟩

theorem digitUnblank {c : Char} (digit : c.isDigit = true) : isBlank c = false := by
  have range : 48 ≤ c.toNat ∧ c.toNat ≤ 57 := by
    simp only [Char.isDigit, Bool.and_eq_true, decide_eq_true_eq] at digit
    exact digit
  simp only [isBlank, Bool.or_eq_false_iff, Bool.and_eq_false_iff, decide_eq_false_iff_not,
    beq_eq_false_iff_ne]
  omega

end Text

theorem digitsSpan {ds : List Char} (digits : ∀ c ∈ ds, c.isDigit = true) :
    ds.takeWhile Char.isDigit = ds ∧ ds.dropWhile Char.isDigit = [] := by
  have taken : (ds ++ []).takeWhile Char.isDigit = ds ++ [].takeWhile Char.isDigit :=
    List.takeWhile_append_of_pos digits
  have dropped : (ds ++ []).dropWhile Char.isDigit = [].dropWhile Char.isDigit :=
    List.dropWhile_append_of_pos digits
  simpa using And.intro taken dropped

theorem decimalDigits (n : Nat) : ∀ c ∈ Nat.toDigits 10 n, c.isDigit = true := fun _ inside =>
  Nat.isDigit_of_mem_toDigits (by decide) (by decide) inside

theorem decimalValue (n : Nat) : digitsValue (Nat.toDigits 10 n) = n := by
  rw [digitsValue, ← Nat.ofDigitChars_eq_foldl, Nat.ofDigitChars_ten_toDigits]

section
variable (n : Int)

theorem reprChars : n.repr.toList = (if n < 0 then ['-'] else []) ++ Nat.toDigits 10 n.natAbs := by
  cases n with
  | ofNat m => simp [Int.repr, Nat.repr]
  | negSucc m => simp [Int.repr, Nat.repr, Int.negSucc_lt_zero]

theorem reprChar {c : Char} (inside : c ∈ n.repr.toList) : c = '-' ∨ c.isDigit = true := by
  rw [reprChars] at inside
  rcases List.mem_append.mp inside with sign | digit
  · split at sign
    · exact .inl (List.mem_singleton.mp sign)
    · cases sign
  · exact .inr (decimalDigits n.natAbs c digit)

theorem reprTrimmed : Text.trimChars n.repr.toList = n.repr.toList :=
  Text.trimUnblank fun _ inside => (reprChar n inside).elim (fun same => same ▸ rfl)
    Text.digitUnblank

theorem reprNumeral : Numeral.ofChars? n.repr.toList = some ⟨decide (n < 0), n.natAbs, 0⟩ := by
  have digits := decimalDigits n.natAbs
  have value := decimalValue n.natAbs
  have some : Nat.toDigits 10 n.natAbs ≠ [] := Nat.toDigits_ne_nil
  have split : Numeral.signed n.repr.toList = (decide (n < 0), Nat.toDigits 10 n.natAbs) := by
    rw [reprChars]
    generalize Nat.toDigits 10 n.natAbs = ds at digits some
    by_cases minus : n < 0
    · simp [minus, Numeral.signed]
    · cases ds with
      | nil => exact absurd rfl some
      | cons c rest =>
        have digit : c.isDigit = true := digits c List.mem_cons_self
        have plain : c ≠ '-' ∧ c ≠ '+' := by
          constructor <;> (rintro rfl; contradiction)
        simp [minus, Numeral.signed, plain]
  generalize Nat.toDigits 10 n.natAbs = ds at digits value some split
  obtain ⟨whole, rest⟩ := digitsSpan digits
  simp [Numeral.ofChars?, split, whole, rest, some, value, Numeral.power?]

end

theorem Whole.textRounds (k : Whole) : Binary64.ofText? k.value.repr = Binary64.ofInt? k.value := by
  obtain ⟨n, range⟩ := k
  have read : Binary64.ofText? n.repr =
      Binary64.ofScientific? (decide (n < 0)) n.natAbs 0 := by
    simp [Binary64.ofText?, reprTrimmed, reprNumeral]
  rw [read, Binary64.ofScientific?, Binary64.ofInt?]
  by_cases zero : n = 0
  · subst zero
    have none : Binary64.ofUnits? false 0 1 = some (Binary64.zero false) := by decide
    simp [none]
  · have short : (Nat.toDigits 10 n.natAbs).length ≤ 20 :=
      (Nat.length_toDigits_le_iff (by decide) (by decide)).mpr (by omega)
    have least : ¬ ((Binary64.decimalLength n.natAbs : Int) < -330) := by omega
    have most : ¬ (310 < (Binary64.decimalLength n.natAbs : Int)) := by
      rw [Binary64.decimalLength]
      omega
    simp [zero, least, most]

end RuleSchema
