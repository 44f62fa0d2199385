/-! Fields between separators: a text with n separators has n + 1 fields, some of
which may be empty, and joining the fields gives the text back. -/
namespace RuleSchema.Text

def fieldChars (mark : Char) : List Char → List (List Char)
  | [] => [[]]
  | c :: cs =>
    if c = mark then [] :: fieldChars mark cs
    else match fieldChars mark cs with
      | [] => [[c]]
      | field :: rest => (c :: field) :: rest

def fields (mark : Char) (s : String) : List String :=
  (fieldChars mark s.toList).map String.ofList

def joinChars (mark : Char) : List (List Char) → List Char
  | [] => []
  | [field] => field
  | field :: rest => field ++ mark :: joinChars mark rest

/-- The fields in order, one separator between two neighbours. -/
def joined (mark : Char) (parts : List String) : String :=
  String.ofList (joinChars mark (parts.map String.toList))

theorem fieldCharsNonempty (mark : Char) (cs : List Char) : fieldChars mark cs ≠ [] := by
  induction cs with
  | nil => simp [fieldChars]
  | cons c cs ih =>
    unfold fieldChars
    split
    · simp
    · split <;> simp

theorem joinFieldChars (mark : Char) (cs : List Char) : joinChars mark (fieldChars mark cs) = cs := by
  induction cs with
  | nil => rfl
  | cons c cs ih =>
    have some := fieldCharsNonempty mark cs
    unfold fieldChars
    split
    · rename_i same
      cases h : fieldChars mark cs with
      | nil => contradiction
      | cons field rest => rw [h] at ih; simp [joinChars, ih, same]
    · cases h : fieldChars mark cs with
      | nil => contradiction
      | cons field rest =>
        rw [h] at ih
        cases rest <;> simp_all [joinChars]

theorem joinedFields (mark : Char) (s : String) : joined mark (fields mark s) = s := by
  simp [joined, fields, joinFieldChars]

end RuleSchema.Text
