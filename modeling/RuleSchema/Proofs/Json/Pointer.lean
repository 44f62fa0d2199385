import RuleSchema.Proofs.Text.Paths
/-! Pointers and their tokens. No escaped token has a slash and unescaping gives the token back,
so a pointer's tokens can be read off its text, whatever characters they have. -/
namespace RuleSchema

namespace Pointer

theorem unescapeCons {c : Char} (plain : c ≠ '~') (cs : List Char) :
    unescapeChars (c :: cs) = c :: unescapeChars cs := by
  rw [unescapeChars]
  · rintro rest rfl
    exact absurd rfl plain
  · rintro rest rfl
    exact absurd rfl plain

theorem unescapeEscapeChars (cs : List Char) : unescapeChars (escapeChars cs) = cs := by
  induction cs with
  | nil => rfl
  | cons c cs ih =>
    rw [escapeChars, List.flatMap_cons, ← escapeChars, escapedChar]
    split
    · rename_i tilde
      simp [unescapeChars, ih, tilde]
    · rename_i noTilde
      split
      · rename_i slash
        simp [unescapeChars, ih, slash]
      · rw [List.singleton_append, unescapeCons noTilde, ih]

theorem unescapeEscape (token : String) : unescape (escape token) = token := by
  simp [unescape, escape, unescapeEscapeChars]

theorem escapeNoSlash (cs : List Char) : '/' ∉ escapeChars cs := by
  intro inside
  obtain ⟨c, _, there⟩ := List.mem_flatMap.mp inside
  unfold escapedChar at there
  split at there
  · simp at there
  · rename_i noTilde
    split at there
    · simp at there
    · rename_i noSlash
      exact noSlash (List.mem_singleton.mp there).symm

theorem escapeEmpty {token : String} : escape token = "" ↔ token = "" := by
  constructor
  · intro empty
    rw [← unescapeEscape token, empty]
    rfl
  · rintro rfl
    rfl

theorem ofTokensChars (tokens : List String) : (ofTokens tokens).toList =
    tokens.flatMap fun token => '/' :: escapeChars token.toList := by
  rw [ofTokens, String.toList_join, List.flatMap_map]
  simp [escape]

theorem fieldsOfTokens (tokens : List String) :
    Text.fields '/' (ofTokens tokens) = "" :: tokens.map escape := by
  have split : Text.fieldChars '/' (ofTokens tokens).toList =
      [] :: tokens.map fun token => escapeChars token.toList := by
    rw [ofTokensChars]
    induction tokens with
    | nil => rfl
    | cons token rest ih =>
      rw [List.flatMap_cons, List.cons_append, Text.fieldChars, if_pos rfl,
        Text.fieldCharsAppend (escapeNoSlash _) ih]
      simp
  simp [Text.fields, split, escape, Function.comp_def]

theorem ofTokensEmpty {tokens : List String} : ofTokens tokens = "" ↔ tokens = [] := by
  rw [← String.toList_eq_nil_iff, ofTokensChars]
  cases tokens <;> simp

theorem tokensOfTokens (tokens : List String) : tokens? (ofTokens tokens) = some tokens := by
  unfold tokens?
  split
  · rename_i root
    rw [ofTokensEmpty.mp root]
  · simp [fieldsOfTokens, Function.comp_def, unescapeEscape]

/-- Text before the first slash is no pointer. -/
theorem tokensUnrooted {pointer : String} {c : Char} {cs : List Char}
    (text : pointer.toList = c :: cs) (differs : c ≠ '/') : tokens? pointer = none := by
  have some : pointer ≠ "" := by
    rintro rfl
    cases text
  obtain ⟨field, rest, split⟩ : ∃ field rest, Text.fieldChars '/' cs = field :: rest :=
    List.exists_cons_of_ne_nil (Text.fieldCharsNonempty '/' cs)
  have fields : Text.fields '/' pointer = String.ofList (c :: field) :: rest.map String.ofList := by
    rw [Text.fields, text, Text.fieldChars, if_neg differs, split]
    rfl
  rw [tokens?, if_neg some, fields]
  split
  · rename_i empty
    have first := congrArg String.toList (List.cons.inj empty).1
    rw [String.toList_ofList] at first
    cases first
  · rfl

end Pointer

end RuleSchema
