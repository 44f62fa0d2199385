import Mathlib.Data.List.Chain
import RuleSchema.Proofs.Text.Paths
/-! Words of a text. A text is its words with blanks before and between them, and no other words
make it up so. Written anew with one blank between two it keeps its words, and is the same text
exactly when it was spaced that way. -/
namespace RuleSchema.Text

def AllBlank (gap : List Char) : Prop := ∀ c ∈ gap, isBlank c = true

instance (gap : List Char) : Decidable (AllBlank gap) :=
  decidable_of_iff (gap.all isBlank = true) List.all_eq_true

def Unblank (cs : List Char) : Prop := ∀ c ∈ cs, isBlank c = false

instance (cs : List Char) : Decidable (Unblank cs) :=
  decidable_of_iff (cs.all (!isBlank ·) = true) (by simp [Unblank])

/-- A word: there is some character in it and no blank. -/
structure Solid (word : List Char) : Prop where
  nonempty : word ≠ []
  unblank : Unblank word

/-- What parts two words: there is some character in it, and only blanks. -/
structure Gap (gap : List Char) : Prop where
  nonempty : gap ≠ []
  blank : AllBlank gap

/-- A text made up of words. A blank stands behind each that is not the end. -/
inductive Spaced : List (List Char) → List Char → Prop where
  | blank {gap} (gapBlank : AllBlank gap) : Spaced [] gap
  | word {gap word words rest} (gapBlank : AllBlank gap) (solid : Solid word)
      (apart : ∀ c, rest.head? = some c → isBlank c = true) (after : Spaced words rest) :
      Spaced (word :: words) (gap ++ word ++ rest)

theorem AllBlank.none : AllBlank [] := List.forall_mem_nil _

theorem AllBlank.append {gap more : List Char} (first : AllBlank gap) (second : AllBlank more) :
    AllBlank (gap ++ more) := fun c inside =>
  (List.mem_append.mp inside).elim (first c) (second c)

theorem Gap.space : Gap [' '] := ⟨by decide, by decide⟩

theorem Gap.starts {gap : List Char} (parts : Gap gap) (cs : List Char) :
    ∀ c, (gap ++ cs).head? = some c → isBlank c = true := by
  intro c head
  rw [List.head?_append_of_ne_nil gap parts.nonempty] at head
  exact parts.blank c (List.mem_of_head? head)

theorem Solid.starts {word : List Char} (solid : Solid word) (cs : List Char) :
    ∀ c, (word ++ cs).head? = some c → isBlank c = false := by
  intro c head
  rw [List.head?_append_of_ne_nil word solid.nonempty] at head
  exact solid.unblank c (List.mem_of_head? head)

theorem Spaced.next {word rest : List Char} {words : List (List Char)} (solid : Solid word)
    (apart : ∀ c, rest.head? = some c → isBlank c = true) (after : Spaced words rest) :
    Spaced (word :: words) (word ++ rest) :=
  .word .none solid apart after

theorem Spaced.one {word : List Char} (solid : Solid word) : Spaced [word] word := by
  have alone : Spaced [word] (word ++ []) := .next solid (by simp) (.blank .none)
  simpa using alone

theorem Spaced.behind {words : List (List Char)} {cs gap : List Char} (spaced : Spaced words cs)
    (gapBlank : AllBlank gap) : Spaced words (gap ++ cs) := by
  cases spaced with
  | blank own => exact .blank (gapBlank.append own)
  | word own solid apart after =>
    simpa using Spaced.word (gapBlank.append own) solid apart after

theorem Spaced.before {words : List (List Char)} {cs gap : List Char} (spaced : Spaced words cs)
    (gapBlank : AllBlank gap) : Spaced words (cs ++ gap) := by
  induction spaced with
  | blank own => exact .blank (own.append gapBlank)
  | @word own w words rest ownBlank solid apart after ih =>
    rw [List.append_assoc]
    refine .word ownBlank solid (fun c head => ?_) ih
    cases rest with
    | nil => exact gapBlank c (List.mem_of_head? (by simpa using head))
    | cons first rest => exact apart c (by simpa using head)

theorem Unblank.solid {letters : List Char} (unblank : Unblank letters) (nonempty : letters ≠ []) :
    Solid letters.reverse :=
  ⟨by simpa using nonempty, fun c inside => unblank c (List.mem_reverse.mp inside)⟩

/-- The word under way goes on in front of the characters that are left. -/
theorem wordsSpaced {letters : List Char} (unblank : Unblank letters) (cs : List Char) :
    Spaced (wordsAfter letters cs) (letters.reverse ++ cs) := by
  induction cs generalizing letters with
  | nil =>
    cases letters with
    | nil => exact .blank .none
    | cons c letters => exact .next (unblank.solid (List.cons_ne_nil _ _)) nofun (.blank .none)
  | cons c cs ih =>
    unfold wordsAfter
    by_cases blank : isBlank c = true
    · have own : AllBlank [c] := List.forall_mem_singleton.mpr blank
      have later : Spaced (wordsAfter [] cs) (c :: cs) := (ih (List.forall_mem_nil _)).behind own
      rw [if_pos blank]
      cases letters with
      | nil => exact later
      | cons d letters => exact .next (unblank.solid (List.cons_ne_nil _ _)) (by simp [blank]) later
    · have grown : Unblank (c :: letters) :=
        List.forall_mem_cons.mpr ⟨by simpa using blank, unblank⟩
      rw [if_neg blank]
      simpa using ih grown

theorem wordsBehind {gap : List Char} (gapBlank : AllBlank gap) (cs : List Char) :
    wordsAfter [] (gap ++ cs) = wordsAfter [] cs := by
  induction gap with
  | nil => rfl
  | cons c gap ih =>
    obtain ⟨blank, below⟩ := List.forall_mem_cons.mp gapBlank
    rw [List.cons_append, wordsAfter, if_pos blank]
    exact ih below

theorem wordsGrow {more : List Char} (unblank : Unblank more) (letters cs : List Char) :
    wordsAfter letters (more ++ cs) = wordsAfter (more.reverse ++ letters) cs := by
  induction more generalizing letters with
  | nil => rfl
  | cons c more ih =>
    obtain ⟨solid, below⟩ := List.forall_mem_cons.mp unblank
    rw [List.cons_append, wordsAfter, if_neg (by simp [solid]), ih below]
    simp

theorem wordsEnd {letters cs : List Char} (nonempty : letters ≠ [])
    (apart : ∀ c, cs.head? = some c → isBlank c = true) :
    wordsAfter letters cs = letters.reverse :: wordsAfter [] cs := by
  cases cs with
  | nil => simp [wordsAfter, nonempty]
  | cons c cs => simp [wordsAfter, nonempty, apart c rfl]

theorem spacedWords {words : List (List Char)} {cs : List Char} (spaced : Spaced words cs) :
    wordsAfter [] cs = words := by
  induction spaced with
  | @blank gap gapBlank =>
    have whole := wordsBehind gapBlank []
    rw [List.append_nil] at whole
    exact whole
  | @word gap w words rest gapBlank solid apart after ih =>
    have nonempty : w.reverse ≠ [] := by simpa using solid.nonempty
    rw [List.append_assoc, wordsBehind gapBlank, wordsGrow solid.unblank, List.append_nil,
      wordsEnd nonempty apart, List.reverse_reverse, ih]

theorem wordsIff {words : List (List Char)} {cs : List Char} :
    wordsAfter [] cs = words ↔ Spaced words cs :=
  ⟨fun same => same ▸ wordsSpaced (List.forall_mem_nil _) cs, spacedWords⟩

theorem FreshEnds.later {front back : List Char} (fresh : FreshEnds (front ++ back))
    (nonempty : back ≠ []) (first : ∀ c, back.head? = some c → isBlank c = false) :
    FreshEnds back where
  first := first
  last c final := fresh.last c (by rw [List.getLast?_append_of_ne_nil _ nonempty, final])

theorem blankTaken (cs : List Char) : AllBlank (cs.takeWhile isBlank) :=
  List.all_eq_true.mp List.all_takeWhile

theorem trimAround (cs : List Char) : ∃ before after, AllBlank before ∧ AllBlank after ∧
    cs = before ++ trimChars cs ++ after := by
  have back := List.takeWhile_append_dropWhile (p := isBlank) (l := (cs.dropWhile isBlank).reverse)
  have body : cs.dropWhile isBlank =
      trimChars cs ++ ((cs.dropWhile isBlank).reverse.takeWhile isBlank).reverse := by
    rw [trimChars, ← List.reverse_append, back, List.reverse_reverse]
  have after := blankTaken (cs.dropWhile isBlank).reverse
  refine ⟨_, _, blankTaken cs, fun c inside => after c (List.mem_reverse.mp inside), ?_⟩
  rw [List.append_assoc, ← body, List.takeWhile_append_dropWhile]

theorem trimEmpty {s : String} (empty : trim s = "") : AllBlank s.toList := by
  obtain ⟨before, after, first, second, whole⟩ := trimAround s.toList
  have none : trimChars s.toList = [] := by simpa [trim] using empty
  rw [whole, none, List.append_nil]
  exact first.append second

theorem wordsTrim (s : String) : words (trim s) = words s := by
  obtain ⟨before, after, first, second, whole⟩ := trimAround s.toList
  have own : Spaced (wordsAfter [] (trimChars s.toList)) (trimChars s.toList) := wordsIff.mp rfl
  have spaced := (own.behind first).before second
  rw [← whole] at spaced
  rw [words, words, spacedWords spaced, trim, String.toList_ofList]

/-- The first word, behind blanks or without one according to how the text starts. -/
theorem Spaced.uncons {word cs : List Char} {words : List (List Char)}
    (spaced : Spaced (word :: words) cs) : ∃ gap rest, cs = gap ++ (word ++ rest) ∧ Solid word ∧
      (∀ c, rest.head? = some c → isBlank c = true) ∧ Spaced words rest ∧
      ((∀ c, cs.head? = some c → isBlank c = false) → gap = []) ∧
      ((∀ c, cs.head? = some c → isBlank c = true) → Gap gap) := by
  cases spaced with
  | @word gap _ _ rest gapBlank solid apart after =>
    refine ⟨gap, rest, List.append_assoc .., solid, apart, after, fun first => ?_, fun first => ?_⟩
    · cases gap with
      | nil => rfl
      | cons c gap =>
        have blank := gapBlank c List.mem_cons_self
        rw [first c rfl] at blank
        cases blank
    · refine ⟨?_, gapBlank⟩
      rintro rfl
      obtain ⟨c, more, rfl⟩ := List.exists_cons_of_ne_nil solid.nonempty
      have blank := first c rfl
      rw [solid.unblank c List.mem_cons_self] at blank
      cases blank

theorem Spaced.allBlank {cs : List Char} (spaced : Spaced [] cs) : AllBlank cs := by
  cases spaced
  assumption

theorem wordsNonempty {s : String} (nonempty : s ≠ "") (trimmed : trim s = s) : words s ≠ [] := by
  intro none
  have spaced : Spaced (wordsAfter [] s.toList) s.toList := wordsIff.mp rfl
  rw [List.map_eq_nil_iff.mp none] at spaced
  cases chars : s.toList with
  | nil => exact nonempty (String.toList_eq_nil_iff.mp chars)
  | cons c cs =>
    have blank := spaced.allBlank c (by rw [chars]; exact List.mem_cons_self)
    rw [(trimFixed.mp trimmed).first c (by rw [chars]; rfl)] at blank
    cases blank

theorem Spaced.solid {words : List (List Char)} {cs : List Char} (spaced : Spaced words cs) :
    ∀ word ∈ words, Solid word := by
  induction spaced with
  | blank => exact List.forall_mem_nil _
  | word _ solid _ _ ih => exact List.forall_mem_cons.mpr ⟨solid, ih⟩

theorem spacedJoined {words : List (List Char)} (solid : ∀ word ∈ words, Solid word) :
    Spaced words (joinChars ' ' words) := by
  induction words with
  | nil => exact .blank .none
  | cons word rest ih =>
    obtain ⟨own, below⟩ := List.forall_mem_cons.mp solid
    cases rest with
    | nil => exact .one own
    | cons next rest => exact .next own (Gap.space.starts _) ((ih below).behind Gap.space.blank)

/-- The words of a text with one space between two. -/
def respaced (s : String) : String := joined ' ' (words s)

/-- The only blanks are spaces, each on its own. -/
structure SinglySpaced (cs : List Char) : Prop where
  plain : ∀ c ∈ cs, isBlank c = true → c = ' '
  apart : cs.IsChain fun c next => isBlank c = true → isBlank next = false

instance (cs : List Char) : Decidable (SinglySpaced cs) :=
  have plain : (cs.all fun c => !isBlank c || c == ' ') = true ↔
      ∀ c ∈ cs, isBlank c = true → c = ' ' := by
    simp [or_iff_not_imp_left]
  decidable_of_iff ((cs.all fun c => !isBlank c || c == ' ') = true ∧
      cs.IsChain fun c next => isBlank c = true → isBlank next = false)
    ⟨fun ⟨own, apart⟩ => ⟨plain.mp own, apart⟩, fun ⟨own, apart⟩ => ⟨plain.mpr own, apart⟩⟩

theorem Solid.singlySpaced {word : List Char} (solid : Solid word) : SinglySpaced word where
  plain c inside blank := by
    rw [solid.unblank c inside] at blank
    cases blank
  apart := by
    refine (List.pairwise_of_forall_mem_list fun c inside next _ blank => ?_).isChain
    rw [solid.unblank c inside] at blank
    cases blank

theorem Solid.spaceBefore {word cs : List Char} (solid : Solid word) (spaced : SinglySpaced cs)
    (fresh : ∀ c, cs.head? = some c → isBlank c = false) : SinglySpaced (word ++ ' ' :: cs) where
  plain c inside blank := by
    rcases List.mem_append.mp inside with own | later
    · exact solid.singlySpaced.plain c own blank
    · rcases List.mem_cons.mp later with same | below
      · exact same
      · exact spaced.plain c below blank
  apart := by
    refine List.isChain_append.mpr ⟨solid.singlySpaced.apart, ?_, ?_⟩
    · exact List.isChain_cons.mpr ⟨fun c head _ => fresh c head, spaced.apart⟩
    · intro c final next _ blank
      rw [solid.unblank c (List.mem_of_getLast? final)] at blank
      cases blank

theorem joinedSinglySpaced {words : List (List Char)} (solid : ∀ word ∈ words, Solid word) :
    SinglySpaced (joinChars ' ' words) := by
  induction words with
  | nil => exact ⟨List.forall_mem_nil _, .nil⟩
  | cons word rest ih =>
    obtain ⟨own, below⟩ := List.forall_mem_cons.mp solid
    cases rest with
    | nil => exact own.singlySpaced
    | cons next rest =>
      have start := below next List.mem_cons_self
      refine own.spaceBefore (ih below) fun c head => ?_
      rw [joinCharsHead ' ' start.nonempty] at head
      exact start.unblank c (List.mem_of_head? head)

theorem SinglySpaced.tail {c : Char} {cs : List Char} (spaced : SinglySpaced (c :: cs)) :
    SinglySpaced cs where
  plain d inside := spaced.plain d (List.mem_cons_of_mem c inside)
  apart := (List.isChain_cons.mp spaced.apart).2

theorem joinCharsCons {mark : Char} {rest : List (List Char)} (nonempty : rest ≠ [])
    (part : List Char) : joinChars mark (part :: rest) = part ++ mark :: joinChars mark rest := by
  cases rest with
  | nil => contradiction
  | cons next rest => rfl

/-- Behind the word under way a blank is a space, with the next word right behind it. -/
theorem joinWords {letters cs : List Char} (spaced : SinglySpaced cs)
    (first : letters = [] → ∀ c, cs.head? = some c → isBlank c = false)
    (last : ∀ c, cs.getLast? = some c → isBlank c = false) :
    joinChars ' ' (wordsAfter letters cs) = letters.reverse ++ cs := by
  induction cs generalizing letters with
  | nil => cases letters <;> simp [wordsAfter, joinChars]
  | cons c cs ih =>
    have lastBelow : ∀ d, cs.getLast? = some d → isBlank d = false := fun d final =>
      last d (by rw [List.getLast?_cons, final, Option.getD_some])
    by_cases blank : isBlank c = true
    · have nonempty : letters ≠ [] := by
        rintro rfl
        rw [first rfl c rfl] at blank
        cases blank
      have space : c = ' ' := spaced.plain c List.mem_cons_self blank
      have filled : cs ≠ [] := by
        rintro rfl
        rw [last c rfl] at blank
        cases blank
      have start := (List.isChain_cons.mp spaced.apart).1
      have below : joinChars ' ' (wordsAfter [] cs) = cs :=
        ih spaced.tail (fun _ d head => start d head blank) lastBelow
      have followed : wordsAfter [] cs ≠ [] := by
        intro none
        rw [none] at below
        exact filled below.symm
      rw [wordsAfter, if_pos blank, if_neg (by simpa using nonempty), joinCharsCons followed, below,
        space]
    · have grown : joinChars ' ' (wordsAfter (c :: letters) cs) = (c :: letters).reverse ++ cs :=
        ih spaced.tail (fun none => absurd none (List.cons_ne_nil c letters)) lastBelow
      rw [wordsAfter, if_neg blank, grown, List.reverse_cons, List.append_assoc]
      rfl

theorem respacedWords (s : String) : words (respaced s) = words s := by
  have solid : ∀ word ∈ wordsAfter [] s.toList, Solid word := (wordsIff.mp rfl).solid
  simp [words, respaced, joined, spacedWords (spacedJoined solid)]

theorem respacedChars (s : String) :
    (respaced s).toList = joinChars ' ' (wordsAfter [] s.toList) := by
  simp [respaced, joined, words]

theorem respacedSingly (s : String) : SinglySpaced (respaced s).toList := by
  rw [respacedChars]
  exact joinedSinglySpaced (wordsIff.mp rfl).solid

/-- A trimmed text keeps its spacing exactly when it is singly spaced. -/
theorem respacedSelf {s : String} (trimmed : trim s = s) :
    respaced s = s ↔ SinglySpaced s.toList := by
  constructor
  · intro same
    rw [← same]
    exact respacedSingly s
  · intro spaced
    have fresh := trimFixed.mp trimmed
    rw [← String.toList_inj, respacedChars]
    exact joinWords spaced (fun _ => fresh.first) fresh.last

end RuleSchema.Text
