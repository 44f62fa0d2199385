import RuleSchema.Proofs.Json.Pointer
import RuleSchema.Proofs.Schema.Tree
import RuleSchema.Report
/-! Places in documents. The pointer of a field path is read back as the path, by whoever splits
it, and points at the value that the path leads to. Its marks are two replacements in turn, and
so is their removal, in the other order. -/
namespace RuleSchema

namespace Text

/-- Every `old` in a text replaced, from the left on; `passed` characters belong to the last one. -/
def replaceFrom (old new : List Char) : (passed : Nat) → List Char → List Char
  | _, [] => []
  | 0, c :: cs =>
    if old.isPrefixOf (c :: cs) then new ++ replaceFrom old new (old.length - 1) cs
    else c :: replaceFrom old new 0 cs
  | passed + 1, _ :: cs => replaceFrom old new passed cs

def replaced (old new : String) (s : String) : String :=
  String.ofList (replaceFrom old.toList new.toList 0 s.toList)

theorem replaceMark (mark : Char) (new cs : List Char) :
    replaceFrom [mark] new 0 cs = cs.flatMap fun c => if c = mark then new else [c] := by
  induction cs with
  | nil => rfl
  | cons c cs ih =>
    rw [List.flatMap_cons, ← ih, replaceFrom]
    cases same : decide (c = mark) with
    | true => simp [of_decide_eq_true same]
    | false =>
      have differs : ¬ mark = c := fun other => of_decide_eq_false same other.symm
      simp [differs, of_decide_eq_false same]

end Text

namespace Pointer

theorem escapeReplaces (cs : List Char) : escapeChars cs =
    Text.replaceFrom ['/'] ['~', '1'] 0 (Text.replaceFrom ['~'] ['~', '0'] 0 cs) := by
  rw [Text.replaceMark, Text.replaceMark, List.flatMap_assoc, escapeChars]
  congr 1
  funext c
  unfold escapedChar
  split
  · decide
  · simp

theorem notMarked {kind c : Char} {cs : List Char}
    (unmarked : ∀ rest, c = '~' → cs = kind :: rest → False) :
    ['~', kind].isPrefixOf (c :: cs) = false := by
  apply eq_false_of_ne_true
  intro marked
  obtain ⟨tilde, start⟩ := List.cons_prefix_cons.mp (List.isPrefixOf_iff_prefix.mp marked)
  obtain ⟨rest, whole⟩ := start
  exact unmarked rest tilde.symm whole.symm

/-- No zero comes up behind a tilde where slashes are put back. -/
theorem slashesZero {cs rest : List Char}
    (zero : Text.replaceFrom ['~', '1'] ['/'] 0 cs = '0' :: rest) : ∃ more, cs = '0' :: more := by
  cases cs with
  | nil => cases zero
  | cons c cs =>
    rw [Text.replaceFrom] at zero
    split at zero
    · cases zero
    · cases zero
      exact ⟨cs, rfl⟩

theorem unescapeReplaces (cs : List Char) : unescapeChars cs =
    Text.replaceFrom ['~', '0'] ['~'] 0 (Text.replaceFrom ['~', '1'] ['/'] 0 cs) := by
  fun_induction unescapeChars cs with
  | case1 cs ih => simp [Text.replaceFrom, ih]
  | case2 cs ih => simp [Text.replaceFrom, ih]
  | case3 c cs noZero noOne ih =>
    have same : Text.replaceFrom ['~', '1'] ['/'] 0 (c :: cs) =
        c :: Text.replaceFrom ['~', '1'] ['/'] 0 cs := by
      simp [Text.replaceFrom, notMarked noOne]
    have tildes : ['~', '0'].isPrefixOf (c :: Text.replaceFrom ['~', '1'] ['/'] 0 cs) = false := by
      apply notMarked
      intro rest tilde zero
      obtain ⟨more, there⟩ := slashesZero zero
      exact noZero more tilde there
    rw [same, Text.replaceFrom, tildes, ih]
    rfl
  | case4 => rfl

theorem ofTokensReplaces (tokens : List String) : ofTokens tokens = String.join
    (tokens.map fun token => "/" ++ Text.replaced "/" "~1" (Text.replaced "~" "~0" token)) := by
  have each : ∀ token, escape token = Text.replaced "/" "~1" (Text.replaced "~" "~0" token) := by
    intro token
    simp [escape, Text.replaced, escapeReplaces]
  simp only [ofTokens, each]

theorem unescapeTwice (token : String) :
    unescape token = Text.replaced "~0" "~" (Text.replaced "~1" "/" token) := by
  simp [unescape, Text.replaced, unescapeReplaces]

end Pointer

theorem Issue.topLevelFieldOfTokens {i : Issue} {name : String} {rest : List String}
    (place : i.path = Pointer.ofTokens (name :: rest)) :
    i.topLevelField? = if name = "" then none else some name := by
  simp only [topLevelField?, place, Pointer.fieldsOfTokens, List.map_cons, Pointer.escapeEmpty,
    Pointer.unescapeEscape]

namespace Json

theorem descendCons (v : Json) (token : String) (rest : List String) :
    v.descend? (token :: rest) = (v.child? token).bind fun w => w.descend? rest :=
  walkCons child? v token rest

/-- Tokens lead wherever names lead. -/
theorem descendMember {v w : Json} {names : List String} (found : v.member? names = some w) :
    v.descend? names = some w := by
  induction names generalizing v with
  | nil => exact found
  | cons name rest ih =>
    rw [memberCons] at found
    obtain ⟨next, there, below⟩ := Option.bind_eq_some_iff.mp found
    have step : v.child? name = some next := by
      cases v with
      | object members => exact there
      | null | bool _ | number _ | string _ | array _ => cases there
    rw [descendCons, step]
    exact ih below

end Json

/-- A path's pointer splits into its segments, so different paths have different pointers. An
issue there is one of the path's first segment, and a value that the path leads to in a document
is the one at the pointer. Whatever is in the segments, escaping them replaces the tildes and then
the slashes, and unescaping puts back the slashes and then the tildes. -/
theorem pointerLocates (path : FieldPath) :
    (Text.fields '/' path.pointer).map Pointer.unescape = "" :: path.segments ∧
    (∀ other : FieldPath, other.segments ≠ path.segments → other.pointer ≠ path.pointer) ∧
    (∀ i : Issue, i.path = path.pointer → i.topLevelField? = some path.head) ∧
    (∀ document v : Json, document.member? path.segments = some v →
      document.at? path.pointer = some v) ∧
    path.pointer = String.join (path.segments.map fun segment =>
      "/" ++ Text.replaced "/" "~1" (Text.replaced "~" "~0" segment)) ∧
    ∀ token, Pointer.unescape token = Text.replaced "~0" "~" (Text.replaced "~1" "/" token) := by
  have split : (Text.fields '/' path.pointer).map Pointer.unescape = "" :: path.segments := by
    rw [FieldPath.pointer, Pointer.fieldsOfTokens]
    have each : (path.segments.map Pointer.escape).map Pointer.unescape = path.segments := by
      simp [Function.comp_def, Pointer.unescapeEscape]
    rw [List.map_cons, each]
    rfl
  refine ⟨split, fun other differ same => differ ?_, fun i place => ?_,
    fun document v found => ?_, Pointer.ofTokensReplaces path.segments, Pointer.unescapeTwice⟩
  · have tokens := congrArg Pointer.tokens? same
    rw [FieldPath.pointer, FieldPath.pointer, Pointer.tokensOfTokens,
      Pointer.tokensOfTokens] at tokens
    exact Option.some.inj tokens
  · have whole : path.head :: path.segments.tail = path.segments :=
      List.cons_head_tail path.nonempty
    have named : path.head ≠ "" := path.named path.head (List.head_mem path.nonempty)
    rw [FieldPath.pointer, ← whole] at place
    rw [i.topLevelFieldOfTokens place, if_neg named]
  · rw [Json.at?, FieldPath.pointer, Pointer.tokensOfTokens]
    exact Json.descendMember found

namespace Sample

/-- A path whose names have all that is escaped, and what looks escaped already. -/
def marked : FieldPath := ⟨["a/b", "~01", "~"], by decide, by decide⟩

def markedDocument : Json :=
  .object [("a/b", .object [("~01", .object [("~", .bool true)])])]

end Sample

open Sample in
theorem pointerLocatesMarked : marked.pointer = "/a~1b/~001/~0" ∧
    Issue.topLevelField? ⟨marked.pointer, "", .schema⟩ = some "a/b" ∧
    markedDocument.at? marked.pointer = some (.bool true) := by
  obtain ⟨_, _, names, leads, _⟩ := pointerLocates marked
  exact ⟨by decide, names _ rfl, leads markedDocument (.bool true) rfl⟩

end RuleSchema
