import RuleSchema.Json.Printer
import RuleSchema.Json.Reader
/-! Quoted texts. Reading a quoted text gives back the text it was made from, whatever characters
that has, so no two texts are quoted alike. -/
namespace RuleSchema.Json

theorem hexDigits : ∀ n : Fin 32,
    hexValue? '0' '0' (Nat.digitChar (n / 16)) (Nat.digitChar (n % 16)) = some n.val := by
  decide

/-- Each character is read off its escaped form, and nothing of what follows. -/
theorem readEscaped (c : Char) (rest : List Char) :
    stringTail? (escapedChar c ++ rest) =
      (stringTail? rest).map fun (s, rest) => (c :: s, rest) := by
  have coded : ∀ n, c.toNat = n → c = Char.ofNat n := by
    rintro _ rfl
    exact (Char.ofNat_toNat c).symm
  by_cases short : c = '"' ∨ c = '\\' ∨ c = '\n' ∨ c = '\r' ∨ c = '\t' ∨ c = Char.ofNat 0x08 ∨
      c = Char.ofNat 0x0C
  · rcases short with rfl | rfl | rfl | rfl | rfl | rfl | rfl <;>
      simp [escapedChar, stringTail?, plainEscape?]
  · simp only [not_or] at short
    obtain ⟨quote, backslash, newline, carriage, tab, backspace, feed⟩ := short
    replace backspace := mt (coded 0x08) backspace
    replace feed := mt (coded 0x0C) feed
    by_cases control : c.toNat < 0x20
    · have code : hexValue? '0' '0' (Nat.digitChar (c.toNat / 16))
          (Nat.digitChar (c.toNat % 16)) = some c.toNat := hexDigits ⟨c.toNat, control⟩
      have low : ¬(0xDC00 ≤ c.toNat ∧ c.toNat < 0xE000) := by omega
      have high : ¬(0xD800 ≤ c.toNat ∧ c.toNat < 0xDC00) := by omega
      simp [escapedChar, quote, backslash, newline, carriage, tab, backspace, feed, control,
        stringTail?, code, low, high]
    · simp [escapedChar, quote, backslash, newline, carriage, tab, backspace, feed, control,
        stringTail?]

theorem readQuoted (cs rest : List Char) :
    stringTail? (cs.flatMap escapedChar ++ '"' :: rest) = some (cs, rest) := by
  induction cs with
  | nil => rfl
  | cons c cs ih =>
    rw [List.flatMap_cons, List.append_assoc, readEscaped, ih]
    rfl

theorem stringTextInjective {s t : String} (same : stringText s = stringText t) : s = t := by
  have quoted : s.toList.flatMap escapedChar ++ ['"'] = t.toList.flatMap escapedChar ++ ['"'] :=
    (List.cons.inj (String.ofList_injective same)).2
  have read := readQuoted t.toList []
  rw [← quoted, readQuoted] at read
  exact String.toList_injective (Prod.mk.inj (Option.some.inj read)).1

end RuleSchema.Json
