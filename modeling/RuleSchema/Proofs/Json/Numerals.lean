import RuleSchema.Json.Printer
import RuleSchema.Json.Reader
import RuleSchema.Proofs.Binary64.Decimal
/-! Numbers in JSON texts. A number that is read back from its own text is read off every longer
one, up to the mark that ends it. Whole numbers always are, as the exact numbers they are. -/
namespace RuleSchema

/-- The number is read off its text, all of it. -/
def Number.ReadsBack (n : Number) : Prop := Json.numberToken? n.text.toList = some (n, [])

namespace Json

theorem spanBefore {p : Char → Bool} {rest : List Char}
    (stop : ∀ c, rest.head? = some c → p c = false) (cs : List Char) :
    (cs ++ rest).takeWhile p = cs.takeWhile p ∧
      (cs ++ rest).dropWhile p = cs.dropWhile p ++ rest := by
  induction cs with
  | nil =>
    cases rest with
    | nil => exact ⟨rfl, rfl⟩
    | cons c rest => simp [stop c rfl]
  | cons c cs ih => by_cases holds : p c <;> simp [holds, ih]

/-- What stands after a value in an indented text: no part of a number. -/
def Closed (rest : List Char) : Prop := ∀ c, rest.head? = some c → c = ',' ∨ c = '\n'

theorem fractionNone {c : Char} (plain : c ≠ '.') (cs : List Char) :
    fractionPart? (c :: cs) = some (none, c :: cs) := by
  unfold fractionPart?
  split
  · rename_i point
    exact absurd (List.cons.inj point).1 plain
  · rfl

/-- A number from its first digit on. -/
def unsigned? (negative : Bool) (body : List Char) : Option (Number × List Char) :=
  let whole := body.takeWhile Char.isDigit
  if whole.isEmpty || (whole.head? == some '0' && whole.length != 1) then none
  else (fractionPart? (body.dropWhile Char.isDigit)).bind fun (fraction, rest) =>
    (powerPart? rest).bind fun (power, rest) =>
      (number? negative whole fraction power).map fun n => (n, rest)

theorem numberUnsigned {c : Char} (plain : c ≠ '-') (cs : List Char) :
    numberToken? (c :: cs) = unsigned? false (c :: cs) := by
  unfold numberToken?
  split
  rename_i signs
  split at signs
  · rename_i minus
    exact absurd (List.cons.inj minus).1 plain
  · cases signs
    rfl

theorem Closed.comma (rest : List Char) : Closed (',' :: rest) := fun _ head =>
  .inl (Option.some.inj head).symm

theorem Closed.line (rest : List Char) : Closed ('\n' :: rest) := fun _ head =>
  .inr (Option.some.inj head).symm

section
variable {rest : List Char} (closed : Closed rest)
include closed

theorem Closed.noDigit (c : Char) (head : rest.head? = some c) : c.isDigit = false := by
  rcases closed c head with rfl | rfl <;> rfl

theorem fractionAppend {cs left : List Char} {fraction : Option (List Char)}
    (read : fractionPart? cs = some (fraction, left)) :
    fractionPart? (cs ++ rest) = some (fraction, left ++ rest) := by
  cases cs with
  | nil =>
    cases read
    cases rest with
    | nil => rfl
    | cons c rest => rcases closed c rfl with rfl | rfl <;> rfl
  | cons c cs =>
    by_cases point : c = '.'
    · subst point
      obtain ⟨taken, dropped⟩ := spanBefore closed.noDigit cs
      simp only [fractionPart?, List.cons_append, taken, dropped] at read ⊢
      split at read
      · cases read
      · rename_i some
        cases read
        rw [if_neg some]
    · rw [fractionNone point] at read
      cases read
      exact fractionNone point (cs ++ rest)

theorem powerAppend {cs left : List Char} {power : Option Int}
    (read : powerPart? cs = some (power, left)) :
    powerPart? (cs ++ rest) = some (power, left ++ rest) := by
  cases cs with
  | nil =>
    cases read
    cases rest with
    | nil => rfl
    | cons c rest => rcases closed c rfl with rfl | rfl <;> rfl
  | cons c cs =>
    by_cases mark : c = 'e' ∨ c = 'E'
    · cases cs with
      | nil => simp [powerPart?, mark, Numeral.signed] at read
      | cons d cs =>
        have signs : Numeral.signed (d :: cs ++ rest) =
            ((Numeral.signed (d :: cs)).1, (Numeral.signed (d :: cs)).2 ++ rest) := by
          unfold Numeral.signed
          split <;> simp_all
        obtain ⟨taken, dropped⟩ := spanBefore closed.noDigit (Numeral.signed (d :: cs)).2
        simp only [powerPart?, List.cons_append, mark, if_true] at read ⊢
        rw [List.cons_append] at signs
        simp only [signs, taken, dropped]
        split at read
        · cases read
        · rename_i some
          cases read
          rw [if_neg some]
    · simp only [powerPart?, List.cons_append, mark, if_false] at read ⊢
      cases read
      rfl

theorem unsignedAppend {negative : Bool} {body : List Char} {n : Number}
    (read : unsigned? negative body = some (n, [])) :
    unsigned? negative (body ++ rest) = some (n, rest) := by
  obtain ⟨taken, dropped⟩ := spanBefore closed.noDigit body
  unfold unsigned? at read ⊢
  rw [taken, dropped]
  dsimp only at read ⊢
  split at read
  · cases read
  · rename_i some
    obtain ⟨⟨fraction, left⟩, behind, read⟩ := Option.bind_eq_some_iff.mp read
    obtain ⟨⟨power, last⟩, exponent, read⟩ := Option.bind_eq_some_iff.mp read
    obtain ⟨_, value, same⟩ := Option.map_eq_some_iff.mp read
    cases same
    rw [if_neg some, fractionAppend closed behind, Option.bind_some, powerAppend closed exponent,
      Option.bind_some, value]
    rfl

theorem numberAppend {cs : List Char} {n : Number} (read : numberToken? cs = some (n, [])) :
    numberToken? (cs ++ rest) = some (n, rest) := by
  cases cs with
  | nil => cases read
  | cons c cs =>
    by_cases minus : c = '-'
    · subst minus
      exact unsignedAppend closed (read : unsigned? true cs = some (n, []))
    · rw [numberUnsigned minus] at read
      rw [List.cons_append, numberUnsigned minus]
      exact unsignedAppend closed read

end

theorem numberStart {cs rest : List Char} {n : Number} (read : numberToken? cs = some (n, rest)) :
    ∃ c tail, cs = c :: tail ∧ (c = '-' ∨ c.isDigit = true) := by
  cases cs with
  | nil => cases read
  | cons c tail =>
    refine ⟨c, tail, rfl, ?_⟩
    by_cases minus : c = '-'
    · exact .inl minus
    · cases digit : c.isDigit with
      | true => exact .inr rfl
      | false =>
        rw [numberUnsigned minus, unsigned?, List.takeWhile_cons_of_neg (by simp [digit])] at read
        cases read

theorem solidStart {c : Char} (start : c = '-' ∨ c.isDigit = true) : isSpace c = false := by
  cases space : isSpace c with
  | false => rfl
  | true =>
    simp only [isSpace, Bool.or_eq_true, decide_eq_true_eq] at space
    rcases space with ((rfl | rfl) | rfl) | rfl <;> rcases start with h | h <;> cases h

theorem leadingDigit {n : Nat} (filled : n ≠ 0) : (Nat.toDigits 10 n).head? ≠ some '0' := by
  induction n using Nat.strongRecOn with
  | ind n ih =>
    by_cases single : n < 10
    · have digits : ∀ d : Fin 10, d.val ≠ 0 → d.val.digitChar ≠ '0' := by decide
      rw [Nat.toDigits_of_lt_base single]
      simpa using digits ⟨n, single⟩ filled
    · have above := ih (n / 10) (by omega) (by omega)
      rw [Nat.toDigits_of_base_le (by decide) (by omega)]
      cases split : Nat.toDigits 10 (n / 10) with
      | nil => exact absurd split Nat.toDigits_ne_nil
      | cons d ds =>
        rw [split] at above
        exact above

theorem takeDigitsAll {ds : List Char} {start : Nat}
    (small : ds.foldl (fun n c => 10 * n + (c.toNat - '0'.toNat)) start < 18446744073709551616) :
    takeDigits start ds = (ds.foldl (fun n c => 10 * n + (c.toNat - '0'.toNat)) start, []) := by
  have grows : ∀ (ds : List Char) (start : Nat),
      start ≤ ds.foldl (fun n c => 10 * n + (c.toNat - '0'.toNat)) start := by
    intro ds
    induction ds with
    | nil => exact Nat.le_refl
    | cons c ds ih =>
      intro start
      have next := ih (10 * start + (c.toNat - '0'.toNat))
      rw [List.foldl_cons]
      omega
  induction ds generalizing start with
  | nil => rfl
  | cons c ds ih =>
    have next := grows ds (10 * start + (c.toNat - '0'.toNat))
    rw [List.foldl_cons] at small ⊢
    unfold takeDigits
    dsimp only
    rw [if_neg (by omega)]
    exact ih small

theorem wholeNumber {k : Whole} {ds : List Char}
    (taken : takeDigits 0 ds = (k.value.natAbs, [])) :
    number? (decide (k.value < 0)) ds none none = some (.whole k) := by
  obtain ⟨n, range⟩ := k
  have signed : (if decide (n < 0) = true then -(n.natAbs : Int) else n.natAbs) = n := by
    simp only [decide_eq_true_eq]
    omega
  have exact : Whole.ofInt? n = some ⟨n, range⟩ := dif_pos range
  have zero : ([] : List Char).isEmpty && !(decide (n < 0) && n.natAbs == 0) := by
    simp
    omega
  unfold number?
  rw [taken]
  dsimp only
  rw [signed, exact]
  exact if_pos zero

theorem wholeUnsigned (k : Whole) :
    unsigned? (decide (k.value < 0)) (Nat.toDigits 10 k.value.natAbs) = some (.whole k, []) := by
  have value := decimalValue k.value.natAbs
  rw [digitsValue] at value
  obtain ⟨whole, rest⟩ := digitsSpan (decimalDigits k.value.natAbs)
  have taken : takeDigits 0 (Nat.toDigits 10 k.value.natAbs) = (k.value.natAbs, []) := by
    have range := k.inRange
    rw [takeDigitsAll (by rw [value]; omega), value]
  have form : ((Nat.toDigits 10 k.value.natAbs).isEmpty ||
      ((Nat.toDigits 10 k.value.natAbs).head? == some '0' &&
        (Nat.toDigits 10 k.value.natAbs).length != 1)) = false := by
    by_cases zero : k.value.natAbs = 0
    · rw [zero]
      rfl
    · simp [leadingDigit zero, Nat.toDigits_ne_nil]
  unfold unsigned?
  rw [whole, rest]
  dsimp only [fractionPart?, powerPart?, Option.bind_some]
  rw [form, wholeNumber taken]
  rfl

end Json

/-- A whole number is read back, as the exact number it is. -/
theorem Whole.readsBack (k : Whole) : (Number.whole k).ReadsBack := by
  have read := Json.wholeUnsigned k
  rw [Number.ReadsBack, Number.text, reprChars]
  by_cases minus : k.value < 0
  · rw [decide_eq_true minus] at read
    rw [if_pos minus]
    exact read
  · rw [decide_eq_false minus] at read
    rw [if_neg minus, List.nil_append]
    cases split : Nat.toDigits 10 k.value.natAbs with
    | nil => exact absurd split Nat.toDigits_ne_nil
    | cons d ds =>
      have digit := decimalDigits k.value.natAbs d (split ▸ List.mem_cons_self)
      have plain : d ≠ '-' := by
        rintro rfl
        cases digit
      rw [split] at read
      rw [Json.numberUnsigned plain]
      exact read

end RuleSchema
