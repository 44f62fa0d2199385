import RuleSchema.FieldPath
/-! Texts of paths. A text is trimmed when no blank stands at its ends, and the names of a path
can be read off its text where no name is empty or has a dot. -/
namespace RuleSchema

namespace Text

theorem fieldCharsAppend {mark : Char} {plain cs first : List Char} {rest : List (List Char)}
    (free : mark ∉ plain) (split : fieldChars mark cs = first :: rest) :
    fieldChars mark (plain ++ cs) = (plain ++ first) :: rest := by
  induction plain with
  | nil => exact split
  | cons c plain ih =>
    rw [List.mem_cons, not_or] at free
    obtain ⟨differs, below⟩ := free
    rw [List.cons_append, fieldChars, if_neg fun same => differs same.symm, ih below]
    rfl

theorem fieldCharsJoined {mark : Char} {parts : List (List Char)} (some : parts ≠ [])
    (free : ∀ part ∈ parts, mark ∉ part) : fieldChars mark (joinChars mark parts) = parts := by
  induction parts with
  | nil => contradiction
  | cons part rest ih =>
    have own := free part List.mem_cons_self
    cases rest with
    | nil =>
      have none : fieldChars mark [] = [[]] := rfl
      simpa [joinChars, fieldChars] using fieldCharsAppend own none
    | cons next rest =>
      have below :=
        ih (List.cons_ne_nil _ _) fun p inside => free p (List.mem_cons_of_mem _ inside)
      have split : fieldChars mark (mark :: joinChars mark (next :: rest)) =
          [] :: next :: rest := by
        rw [fieldChars, if_pos rfl, below]
      simpa [joinChars] using fieldCharsAppend own split

theorem fieldsJoined {mark : Char} {parts : List String} (some : parts ≠ [])
    (free : ∀ part ∈ parts, mark ∉ part.toList) : fields mark (joined mark parts) = parts := by
  have split : fieldChars mark (joinChars mark (parts.map String.toList)) =
      parts.map String.toList := by
    refine fieldCharsJoined (by simpa using some) fun part inside => ?_
    obtain ⟨name, there, rfl⟩ := List.mem_map.mp inside
    exact free name there
  simp [fields, joined, split]

/-- The first two of joined parts may be joined beforehand. -/
theorem joinedMerge (mark : Char) (a b : String) (rest : List String) :
    joined mark (a :: b :: rest) = joined mark ((a ++ String.ofList [mark] ++ b) :: rest) := by
  cases rest <;> simp [joined, joinChars]

/-- No blank stands at either end. -/
structure FreshEnds (cs : List Char) : Prop where
  first : ∀ c, cs.head? = some c → isBlank c = false
  last : ∀ c, cs.getLast? = some c → isBlank c = false

theorem dropFresh {p : Char → Bool} {cs : List Char}
    (fresh : ∀ c, cs.head? = some c → p c = false) : cs.dropWhile p = cs := by
  cases cs with
  | nil => rfl
  | cons c rest => simp [fresh c rfl]

theorem headOfDrop {p : Char → Bool} (cs : List Char) {c : Char}
    (head : (cs.dropWhile p).head? = some c) : p c = false := by
  cases dropped : cs.dropWhile p with
  | nil => simp [dropped] at head
  | cons first rest =>
    rw [dropped] at head
    cases head
    exact dropWhileHead dropped

theorem trimCharsFresh (cs : List Char) : FreshEnds (trimChars cs) where
  first c head := by
    have cut : trimChars cs <+: cs.dropWhile isBlank := by
      have shorter := List.dropWhile_suffix isBlank (l := (cs.dropWhile isBlank).reverse)
      simpa [trimChars] using List.reverse_prefix.mpr shorter
    obtain ⟨rest, whole⟩ := cut
    refine headOfDrop cs ?_
    rw [← whole]
    simp [head]
  last c final := headOfDrop (cs.dropWhile isBlank).reverse (by simpa [trimChars] using final)

theorem FreshEnds.trimChars {cs : List Char} (fresh : FreshEnds cs) : Text.trimChars cs = cs := by
  have back : cs.reverse.dropWhile isBlank = cs.reverse :=
    dropFresh fun c head => fresh.last c (by simpa using head)
  rw [Text.trimChars, dropFresh fresh.first, back, List.reverse_reverse]

theorem trimCharsTwice (cs : List Char) : trimChars (trimChars cs) = trimChars cs :=
  (trimCharsFresh cs).trimChars

theorem trimTwice (s : String) : trim (trim s) = trim s := by
  simp [trim, trimCharsTwice]

theorem trimFixed {s : String} : trim s = s ↔ FreshEnds s.toList := by
  constructor
  · intro fixed
    rw [← fixed, trim, String.toList_ofList]
    exact trimCharsFresh s.toList
  · intro fresh
    rw [trim, fresh.trimChars, String.ofList_toList]

theorem joinCharsHead (mark : Char) {part : List Char} (some : part ≠ [])
    (rest : List (List Char)) : (joinChars mark (part :: rest)).head? = part.head? := by
  obtain ⟨c, cs, rfl⟩ := List.exists_cons_of_ne_nil some
  cases rest <;> rfl

theorem joinCharsLast {mark : Char} {parts : List (List Char)} (each : ∀ part ∈ parts, part ≠ [])
    {c : Char} (final : (joinChars mark parts).getLast? = some c) :
    ∃ part ∈ parts, part.getLast? = some c := by
  induction parts with
  | nil => simp [joinChars] at final
  | cons part rest ih =>
    cases rest with
    | nil => exact ⟨part, List.mem_cons_self, final⟩
    | cons next rest =>
      have filled : joinChars mark (next :: rest) ≠ [] := by
        intro empty
        have head := joinCharsHead mark (each next (by simp)) rest
        rw [empty] at head
        exact each next (by simp) (List.head?_eq_none_iff.mp head.symm)
      have whole : joinChars mark (part :: next :: rest) =
          (part ++ [mark]) ++ joinChars mark (next :: rest) := by
        simp [joinChars]
      rw [whole, List.getLast?_append, Option.or_eq_some_iff] at final
      rcases final with final | ⟨absent, _⟩
      · obtain ⟨found, there, same⟩ :=
          ih (fun p inside => each p (List.mem_cons_of_mem _ inside)) final
        exact ⟨found, List.mem_cons_of_mem _ there, same⟩
      · exact absurd (List.getLast?_eq_none_iff.mp absent) filled

end Text

namespace FieldPath

theorem parseText {raw : String} {path : FieldPath} (parsed : parse raw = .ok path) :
    parse path.text = .ok path := by
  rw [parsedText parsed]
  unfold parse at parsed ⊢
  rw [Text.trimTwice]
  exact parsed

theorem parsedNonempty {raw : String} {path : FieldPath}
    (parsed : parse raw = .ok path) : path.text ≠ "" := by
  intro empty
  have again := parseText parsed
  rw [empty] at again
  cases again

/-- A name that can stand between the dots of a path. -/
structure Segment (name : String) : Prop where
  nonempty : name ≠ ""
  undotted : '.' ∉ name.toList

/-- A name that can stand anywhere in a path, also at an end, where blanks are trimmed. -/
structure Plain (name : String) : Prop extends Segment name where
  trimmed : Text.trim name = name

theorem parseJoined {names : List String} (some : names ≠ [])
    (segments : ∀ name ∈ names, Segment name)
    (trimmed : Text.trim (Text.joined '.' names) = Text.joined '.' names) :
    parse (Text.joined '.' names) =
      .ok ⟨names, some, fun name inside => (segments name inside).nonempty⟩ := by
  have split : Text.fields '.' (Text.joined '.' names) = names :=
    Text.fieldsJoined some fun name inside => (segments name inside).undotted
  have filled : Text.joined '.' names ≠ "" := by
    intro empty
    rw [empty] at split
    exact (segments "" (split ▸ List.mem_cons_self)).nonempty rfl
  rw [parse, trimmed, if_neg filled, ofText]
  simp only [split]
  exact dif_pos fun name inside => (segments name inside).nonempty

theorem plainTrimmed {names : List String} (plain : ∀ name ∈ names, Plain name) :
    Text.trim (Text.joined '.' names) = Text.joined '.' names := by
  rw [Text.trimFixed, Text.joined, String.toList_ofList]
  have filled : ∀ name ∈ names, name.toList ≠ [] := fun name inside empty =>
    (plain name inside).nonempty (String.toList_eq_nil_iff.mp empty)
  have fresh : ∀ name ∈ names, Text.FreshEnds name.toList := fun name inside =>
    Text.trimFixed.mp (plain name inside).trimmed
  constructor
  · intro c head
    cases names with
    | nil => simp [Text.joinChars] at head
    | cons name rest =>
      rw [List.map_cons, Text.joinCharsHead '.' (filled name List.mem_cons_self)] at head
      exact (fresh name List.mem_cons_self).first c head
  · intro c final
    obtain ⟨part, inside, last⟩ := Text.joinCharsLast (by simpa using filled) final
    obtain ⟨name, there, rfl⟩ := List.mem_map.mp inside
    exact (fresh name there).last c last

end FieldPath

end RuleSchema
