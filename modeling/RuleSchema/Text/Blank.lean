/-! White space, trimming and words. A blank is a character with the Unicode
property White_Space. -/
namespace RuleSchema.Text

def isBlank (c : Char) : Bool :=
  let n := c.toNat
  (0x09 ≤ n && n ≤ 0x0D) || n == 0x20 || n == 0x85 || n == 0xA0 || n == 0x1680 ||
    (0x2000 ≤ n && n ≤ 0x200A) || n == 0x2028 || n == 0x2029 || n == 0x202F || n == 0x205F ||
    n == 0x3000

def trimChars (cs : List Char) : List Char :=
  ((cs.dropWhile isBlank).reverse.dropWhile isBlank).reverse

def trim (s : String) : String := String.ofList (trimChars s.toList)

/-- Words of a text, the letters of the word under way in front, last one first. -/
def wordsAfter (letters : List Char) : List Char → List (List Char)
  | [] => if letters.isEmpty then [] else [letters.reverse]
  | c :: cs =>
    if isBlank c then
      if letters.isEmpty then wordsAfter [] cs else letters.reverse :: wordsAfter [] cs
    else wordsAfter (c :: letters) cs

/-- The longest runs of characters that are not blank. -/
def words (s : String) : List String := (wordsAfter [] s.toList).map String.ofList

theorem dropWhileHead {p : Char → Bool} {cs : List Char} {c : Char} {rest : List Char}
    (h : cs.dropWhile p = c :: rest) : p c = false := by
  induction cs with
  | nil => simp at h
  | cons a as ih =>
    by_cases ha : p a
    · simp only [List.dropWhile_cons, ha, if_true] at h; exact ih h
    · simp only [List.dropWhile_cons, ha] at h
      cases h; simpa using ha

end RuleSchema.Text
