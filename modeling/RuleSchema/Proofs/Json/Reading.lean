import RuleSchema.Proofs.Json.Characters
import RuleSchema.Proofs.Json.Numerals
import RuleSchema.Proofs.Json.Quotation
import RuleSchema.Proofs.Text.Paths
/-! Texts that are read back. An indented text reads as the value it was printed from, whatever
texts and names are in it, as long as its binary64 numbers are read back from their own digits and
the value is not nested too deep. -/
namespace RuleSchema.Json

theorem skipSolid {c : Char} (solid : isSpace c = false) (cs : List Char) :
    skip (c :: cs) = c :: cs :=
  List.dropWhile_cons_of_neg (by simp [solid])

theorem skipBlank {blank : List Char} (spaces : ∀ c ∈ blank, c = ' ') (cs : List Char) :
    skip (blank ++ cs) = skip cs :=
  List.dropWhile_append_of_pos fun c inside => spaces c inside ▸ rfl

theorem skipNewline (cs : List Char) : skip ('\n' :: cs) = skip cs := rfl

theorem skipOne (cs : List Char) : skip (' ' :: cs) = skip cs := rfl

theorem skipTwice (cs : List Char) : skip (skip cs) = skip cs :=
  Text.dropFresh fun _ head => Text.headOfDrop cs head

section
variable (n depth : Nat)

theorem valueSkips {a b : List Char} (same : skip a = skip b) :
    value? n depth a = value? n depth b := by
  cases n with
  | zero => rfl
  | succ n => rw [value?, value?, same]

theorem elementsSkips {a b : List Char} (same : skip a = skip b) :
    elements? n depth a = elements? n depth b := by
  cases n with
  | zero => rfl
  | succ n => rw [elements?, elements?, valueSkips n depth same]

theorem membersSkips {a b : List Char} (same : skip a = skip b) :
    members? n depth a = members? n depth b := by
  cases n with
  | zero => rfl
  | succ n => rw [members?, members?, same]

theorem readNumber {c : Char} (start : c = '-' ∨ c.isDigit = true) (cs : List Char) :
    value? (n + 1) depth (c :: cs) =
      (numberToken? (c :: cs)).map fun (x, rest) => (.number x, rest) := by
  rw [value?, skipSolid (solidStart start)]
  split
  -- No other value begins with a sign or a digit.
  all_goals first
    | rfl
    | rename_i other
      obtain ⟨rfl, _⟩ := List.cons.inj other
      rcases start with start | start <;> cases start

theorem valueArray (cs : List Char) : value? (n + 1) (depth + 1) ('[' :: cs) =
    match skip cs with
    | ']' :: rest => some (.array [], rest)
    | rest => (elements? n depth rest).map fun (xs, rest) => (.array xs, rest) := rfl

theorem valueObject (cs : List Char) : value? (n + 1) (depth + 1) ('\x7b' :: cs) =
    match skip cs with
    | '\x7d' :: rest => some (.object [], rest)
    | rest => (members? n depth rest).map fun (ms, rest) => (.object ms, rest) := rfl

variable {cs tail : List Char} {c : Char} (begun : skip cs = c :: tail)
include begun

theorem readArray (filled : c ≠ ']') : value? (n + 1) (depth + 1) ('[' :: cs) =
    (elements? n depth cs).map fun (xs, rest) => (.array xs, rest) := by
  rw [valueArray, begun]
  split
  · rename_i other
    exact absurd (List.cons.inj other).1 filled
  · rw [← begun, elementsSkips n depth (skipTwice cs)]

theorem readObject (filled : c ≠ '\x7d') : value? (n + 1) (depth + 1) ('\x7b' :: cs) =
    (members? n depth cs).map fun (ms, rest) => (.object ms, rest) := by
  rw [valueObject, begun]
  split
  · rename_i other
    exact absurd (List.cons.inj other).1 filled
  · rw [← begun, membersSkips n depth (skipTwice cs)]

end

/-- Items a line each, and the closing bracket. -/
def lines (margin : List Char) (closing : Char) (items : List (List Char)) : List Char :=
  [',', '\n'].intercalate (items.map fun item => margin ++ [' ', ' '] ++ item) ++
    ['\n'] ++ margin ++ [closing]

theorem blockLines {margin : List Char} {opening closing : Char} {items : List (List Char)}
    (filled : items ≠ []) : blockChars margin opening closing items =
      opening :: '\n' :: lines margin closing items := by
  cases items with
  | nil => contradiction
  | cons item rest => simp [blockChars, lines]

theorem linesOne (margin : List Char) (closing : Char) (item rest : List Char) :
    lines margin closing [item] ++ rest =
      (margin ++ [' ', ' ']) ++ (item ++ ('\n' :: (margin ++ closing :: rest))) := by
  simp [lines]

theorem linesCons (margin : List Char) (closing : Char) (item next : List Char)
    (items : List (List Char)) (rest : List Char) :
    lines margin closing (item :: next :: items) ++ rest =
      (margin ++ [' ', ' ']) ++
        (item ++ (',' :: '\n' :: (lines margin closing (next :: items) ++ rest))) := by
  simp [lines, List.intercalate_cons_cons]

theorem linesStart (margin : List Char) (closing : Char) (item : List Char)
    (items : List (List Char)) (rest : List Char) :
    ∃ behind, lines margin closing (item :: items) ++ rest =
      (margin ++ [' ', ' ']) ++ (item ++ behind) := by
  cases items with
  | nil => exact ⟨_, linesOne margin closing item rest⟩
  | cons next items => exact ⟨_, linesCons margin closing item next items rest⟩

theorem linesOneLength (margin : List Char) (closing : Char) (item : List Char) :
    item.length < (lines margin closing [item]).length := by
  have size := congrArg List.length (linesOne margin closing item [])
  simp only [List.length_append, List.length_cons, List.length_nil] at size
  omega

theorem linesConsLength (margin : List Char) (closing : Char) (item next : List Char)
    (items : List (List Char)) :
    item.length < (lines margin closing (item :: next :: items)).length ∧
      (lines margin closing (next :: items)).length <
        (lines margin closing (item :: next :: items)).length := by
  have size := congrArg List.length (linesCons margin closing item next items [])
  simp only [List.length_append, List.length_cons, List.length_nil] at size
  omega

/-- A value is read off its text and nothing else is, at any margin, with steps enough. -/
def ReadsIn (depth : Nat) (v : Json) : Prop :=
  ∀ margin, (∀ c ∈ margin, c = ' ') → ∀ n rest, (chars margin v).length ≤ n → Closed rest →
    value? n depth (chars margin v ++ rest) = some (v, rest)

def memberText (margin : List Char) (name : String) (v : Json) : List Char :=
  '"' :: name.toList.flatMap escapedChar ++ ['"', ':', ' '] ++ chars margin v

theorem memberCharsCons (margin : List Char) (name : String) (v : Json)
    (rest : List (String × Json)) :
    memberChars margin ((name, v) :: rest) = memberText margin name v :: memberChars margin rest :=
  rfl

theorem memberTextLength (margin : List Char) (name : String) (v : Json) :
    (chars margin v).length ≤ (memberText margin name v).length := by
  simp [memberText]
  omega

section
variable {depth : Nat} {margin : List Char} (spaces : ∀ c ∈ margin, c = ' ')

theorem readMember {n : Nat} {v : Json} {rest : List Char}
    (read : value? n depth (chars margin v ++ rest) = some (v, rest)) (name : String)
    {left : List Char} :
    (skip rest = '\x7d' :: left →
      members? (n + 1) depth (memberText margin name v ++ rest) = some ([(name, v)], left)) ∧
    (skip rest = ',' :: left → members? (n + 1) depth (memberText margin name v ++ rest) =
      (members? n depth left).map fun (ms, rest) => ((name, v) :: ms, rest)) := by
  have shape : memberText margin name v ++ rest = '"' :: (name.toList.flatMap escapedChar ++
      '"' :: ':' :: ' ' :: (chars margin v ++ rest)) := by
    simp [memberText]
  have spaced : value? n depth (' ' :: (chars margin v ++ rest)) = some (v, rest) :=
    (valueSkips n depth (skipOne _)).trans read
  constructor <;>
  · intro ends
    rw [shape, members?, skipSolid (rfl : isSpace '"' = false)]
    simp only [readQuoted, Option.bind_some, skipSolid (rfl : isSpace ':' = false), spaced,
      String.ofList_toList, ends]

include spaces

theorem deeperSpaces : ∀ c ∈ margin ++ [' ', ' '], c = ' ' := by
  intro c inside
  rcases List.mem_append.mp inside with old | new
  · exact spaces c old
  · simpa using new

theorem skipLine (closing : Char) (solid : isSpace closing = false) (rest : List Char) :
    skip ('\n' :: (margin ++ closing :: rest)) = closing :: rest := by
  rw [skipNewline, skipBlank spaces, skipSolid solid]

theorem readElements {elements : List Json} (each : ∀ v ∈ elements, ReadsIn depth v)
    (filled : elements ≠ []) (rest : List Char) (n : Nat)
    (enough : (lines margin ']' (elementChars (margin ++ [' ', ' ']) elements)).length ≤ n) :
    elements? n depth (lines margin ']' (elementChars (margin ++ [' ', ' ']) elements) ++ rest) =
      some (elements, rest) := by
  have deeper := deeperSpaces spaces
  induction elements generalizing n with
  | nil => contradiction
  | cons v others ih =>
    have first := each v List.mem_cons_self (margin ++ [' ', ' ']) deeper
    cases others with
    | nil =>
      rw [elementChars, elementChars] at enough ⊢
      have size := linesOneLength margin ']' (chars (margin ++ [' ', ' ']) v)
      obtain ⟨m, rfl⟩ : ∃ m, n = m + 1 := ⟨n - 1, by omega⟩
      rw [linesOne, elements?, valueSkips m depth (skipBlank deeper _),
        first m _ (by omega) (Closed.line _), Option.bind_some]
      simp only [skipLine spaces ']' rfl]
    | cons w others =>
      have later := ih (fun x inside => each x (List.mem_cons_of_mem v inside))
        (List.cons_ne_nil w others)
      rw [elementChars, elementChars] at enough ⊢
      rw [elementChars] at later
      obtain ⟨own, below⟩ := linesConsLength margin ']' (chars (margin ++ [' ', ' ']) v)
        (chars (margin ++ [' ', ' ']) w) (elementChars (margin ++ [' ', ' ']) others)
      obtain ⟨m, rfl⟩ : ∃ m, n = m + 1 := ⟨n - 1, by omega⟩
      rw [linesCons, elements?, valueSkips m depth (skipBlank deeper _),
        first m _ (by omega) (Closed.comma _), Option.bind_some]
      simp only [skipSolid (rfl : isSpace ',' = false)]
      rw [elementsSkips m depth (skipNewline _), later m (by omega)]
      rfl

theorem readMembers {members : List (String × Json)} (each : ∀ p ∈ members, ReadsIn depth p.2)
    (filled : members ≠ []) (rest : List Char) (n : Nat)
    (enough : (lines margin '\x7d' (memberChars (margin ++ [' ', ' ']) members)).length ≤ n) :
    members? n depth (lines margin '\x7d' (memberChars (margin ++ [' ', ' ']) members) ++ rest) =
      some (members, rest) := by
  have deeper := deeperSpaces spaces
  induction members generalizing n with
  | nil => contradiction
  | cons p others ih =>
    obtain ⟨name, v⟩ := p
    have first : ReadsIn depth v := each (name, v) List.mem_cons_self
    replace first := first (margin ++ [' ', ' ']) deeper
    have within := memberTextLength (margin ++ [' ', ' ']) name v
    cases others with
    | nil =>
      rw [memberCharsCons, memberChars] at enough ⊢
      have size := linesOneLength margin '\x7d' (memberText (margin ++ [' ', ' ']) name v)
      obtain ⟨m, rfl⟩ : ∃ m, n = m + 1 := ⟨n - 1, by omega⟩
      rw [linesOne, membersSkips (m + 1) depth (skipBlank deeper _)]
      exact (readMember (first m _ (by omega) (Closed.line _)) name).1
        (skipLine spaces '\x7d' rfl rest)
    | cons q others =>
      obtain ⟨next, w⟩ := q
      have later := ih (fun p inside => each p (List.mem_cons_of_mem _ inside))
        (List.cons_ne_nil _ others)
      rw [memberCharsCons, memberCharsCons] at enough ⊢
      rw [memberCharsCons] at later
      obtain ⟨own, below⟩ := linesConsLength margin '\x7d'
        (memberText (margin ++ [' ', ' ']) name v) (memberText (margin ++ [' ', ' ']) next w)
        (memberChars (margin ++ [' ', ' ']) others)
      obtain ⟨m, rfl⟩ : ∃ m, n = m + 1 := ⟨n - 1, by omega⟩
      rw [linesCons, membersSkips (m + 1) depth (skipBlank deeper _),
        (readMember (first m _ (by omega) (Closed.comma _)) name).2 (skipSolid rfl _),
        membersSkips m depth (skipNewline _), later m (by omega)]
      rfl

end

/-- Values that can be read back: each binary64 number can, and they are nested within a depth. -/
inductive Readable : Nat → Json → Prop
  | null {depth : Nat} : Readable depth .null
  | bool {depth : Nat} (b : Bool) : Readable depth (.bool b)
  | whole {depth : Nat} (k : Whole) : Readable depth (.number (.whole k))
  | binary {depth : Nat} {x : Binary64} (back : (Number.binary x).ReadsBack) :
    Readable depth (.number (.binary x))
  | string {depth : Nat} (s : String) : Readable depth (.string s)
  | array {depth : Nat} {elements : List Json} (each : ∀ v ∈ elements, Readable depth v) :
    Readable (depth + 1) (.array elements)
  | object {depth : Nat} {members : List (String × Json)}
    (each : ∀ p ∈ members, Readable depth p.2) : Readable (depth + 1) (.object members)

/-- No text of a value begins with a blank or a closing bracket. -/
theorem Readable.start {depth : Nat} {v : Json} (readable : Readable depth v)
    (margin : List Char) :
    ∃ c tail, chars margin v = c :: tail ∧ isSpace c = false ∧ c ≠ ']' := by
  have number : ∀ {n : Number}, n.ReadsBack →
      ∃ c tail, n.text.toList = c :: tail ∧ isSpace c = false ∧ c ≠ ']' := by
    intro n back
    obtain ⟨c, tail, text, start⟩ := numberStart back
    refine ⟨c, tail, text, solidStart start, ?_⟩
    rintro rfl
    rcases start with start | start <;> cases start
  cases readable with
  | null => exact ⟨_, _, rfl, rfl, by decide⟩
  | bool b => cases b <;> exact ⟨_, _, rfl, rfl, by decide⟩
  | whole k => exact number k.readsBack
  | binary back => exact number back
  | string s => exact ⟨_, _, rfl, rfl, by decide⟩
  | array each =>
    rw [chars]
    unfold blockChars
    split <;> exact ⟨_, _, rfl, rfl, by decide⟩
  | object each =>
    rw [chars]
    unfold blockChars
    split <;> exact ⟨_, _, rfl, rfl, by decide⟩

theorem skipLines {margin : List Char} (spaces : ∀ c ∈ margin, c = ' ') (closing : Char)
    {item tail : List Char} {c : Char} (start : item = c :: tail) (solid : isSpace c = false)
    (items : List (List Char)) (rest : List Char) :
    ∃ left, skip ('\n' :: (lines margin closing (item :: items) ++ rest)) = c :: left := by
  obtain ⟨behind, shape⟩ := linesStart margin closing item items rest
  rw [skipNewline, shape, skipBlank (deeperSpaces spaces), start, List.cons_append,
    skipSolid solid]
  exact ⟨_, rfl⟩

theorem readsNumber {depth : Nat} {x : Number} (back : x.ReadsBack) :
    ReadsIn depth (.number x) := by
  intro margin spaces n rest enough closed
  have read := numberAppend closed back
  obtain ⟨c, tail, text, start⟩ := numberStart back
  rw [chars, text] at enough ⊢
  rw [text] at read
  obtain ⟨m, rfl⟩ : ∃ m, n = m + 1 := ⟨n - 1, by simp at enough; omega⟩
  rw [List.cons_append] at read ⊢
  rw [readNumber m depth start, read]
  rfl

theorem readsArray {depth : Nat} {elements : List Json} (each : ∀ v ∈ elements, Readable depth v)
    (reads : ∀ v ∈ elements, ReadsIn depth v) : ReadsIn (depth + 1) (.array elements) := by
  intro margin spaces n rest enough closed
  rw [chars] at enough ⊢
  cases elements with
  | nil =>
    obtain ⟨m, rfl⟩ : ∃ m, n = m + 1 :=
      ⟨n - 1, by simp [elementChars, blockChars] at enough; omega⟩
    rfl
  | cons v others =>
    obtain ⟨c, tail, start, solid, filled⟩ :=
      (each v List.mem_cons_self).start (margin ++ [' ', ' '])
    obtain ⟨left, begun⟩ := skipLines spaces ']' start solid
      (elementChars (margin ++ [' ', ' ']) others) rest
    rw [← elementChars] at begun
    have items : elementChars (margin ++ [' ', ' ']) (v :: others) ≠ [] := List.cons_ne_nil _ _
    rw [blockLines items] at enough ⊢
    simp only [List.length_cons] at enough
    obtain ⟨m, rfl⟩ : ∃ m, n = m + 1 := ⟨n - 1, by omega⟩
    rw [List.cons_append, List.cons_append, readArray m depth begun filled,
      elementsSkips m depth (skipNewline _),
      readElements spaces reads (List.cons_ne_nil v others) rest m (by omega)]
    rfl

theorem readsObject {depth : Nat} {members : List (String × Json)}
    (reads : ∀ p ∈ members, ReadsIn depth p.2) : ReadsIn (depth + 1) (.object members) := by
  intro margin spaces n rest enough closed
  rw [chars] at enough ⊢
  cases members with
  | nil =>
    obtain ⟨m, rfl⟩ : ∃ m, n = m + 1 :=
      ⟨n - 1, by simp [memberChars, blockChars] at enough; omega⟩
    rfl
  | cons p others =>
    obtain ⟨name, v⟩ := p
    obtain ⟨left, begun⟩ := skipLines spaces '\x7d'
      (rfl : memberText (margin ++ [' ', ' ']) name v = '"' :: _) rfl
      (memberChars (margin ++ [' ', ' ']) others) rest
    rw [← memberCharsCons] at begun
    have items : memberChars (margin ++ [' ', ' ']) ((name, v) :: others) ≠ [] :=
      List.cons_ne_nil _ _
    rw [blockLines items] at enough ⊢
    simp only [List.length_cons] at enough
    obtain ⟨m, rfl⟩ : ∃ m, n = m + 1 := ⟨n - 1, by omega⟩
    rw [List.cons_append, List.cons_append, readObject m depth begun (by decide),
      membersSkips m depth (skipNewline _),
      readMembers spaces reads (List.cons_ne_nil _ others) rest m (by omega)]
    rfl

theorem Readable.readsIn {depth : Nat} {v : Json} (readable : Readable depth v) :
    ReadsIn depth v := by
  induction readable with
  | null =>
    intro margin spaces n rest enough closed
    obtain ⟨m, rfl⟩ : ∃ m, n = m + 1 := ⟨n - 1, by simp [chars] at enough; omega⟩
    rfl
  | bool b =>
    intro margin spaces n rest enough closed
    obtain ⟨m, rfl⟩ : ∃ m, n = m + 1 :=
      ⟨n - 1, by cases b <;> simp [chars] at enough <;> omega⟩
    cases b <;> rfl
  | whole k => exact readsNumber k.readsBack
  | binary back => exact readsNumber back
  | @string depth s =>
    intro margin spaces n rest enough closed
    obtain ⟨m, rfl⟩ : ∃ m, n = m + 1 := ⟨n - 1, by simp [chars] at enough; omega⟩
    have shape : chars margin (.string s) ++ rest =
        '"' :: (s.toList.flatMap escapedChar ++ '"' :: rest) := by
      simp [chars]
    rw [shape, value?, skipSolid (rfl : isSpace '"' = false)]
    simp only [readQuoted, Option.map_some, String.ofList_toList]
  | array each reads => exact readsArray each reads
  | object each reads => exact readsObject reads

/-- An indented text is read as the value it was printed from. -/
theorem readsPrinted {v : Json} (readable : Readable greatestNesting v) :
    readTree? v.pretty = some v := by
  have read := readable.readsIn [] nofun (2 * (chars [] v).length + 2) [] (by omega) nofun
  rw [List.append_nil] at read
  rw [readPretty, ofChars?, read]
  rfl

end RuleSchema.Json
