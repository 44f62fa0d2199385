import RuleSchema.Json.Printer
import RuleSchema.Proofs.Json.Ordered
/-! Indented texts as the characters they have. Whether a text reads as the value it was printed
from is computed on these, without going through the text. -/
namespace RuleSchema.Json

def blockChars (margin : List Char) (opening closing : Char) (items : List (List Char)) :
    List Char :=
  if items.isEmpty then [opening, closing]
  else [opening, '\n'] ++
    [',', '\n'].intercalate (items.map fun item => margin ++ [' ', ' '] ++ item) ++
    ['\n'] ++ margin ++ [closing]

mutual
def chars (margin : List Char) : Json → List Char
  | .null => ['n', 'u', 'l', 'l']
  | .bool true => ['t', 'r', 'u', 'e']
  | .bool false => ['f', 'a', 'l', 's', 'e']
  | .number n => n.text.toList
  | .string s => '"' :: s.toList.flatMap escapedChar ++ ['"']
  | .array xs => blockChars margin '[' ']' (elementChars (margin ++ [' ', ' ']) xs)
  | .object ms => blockChars margin '\x7b' '\x7d' (memberChars (margin ++ [' ', ' ']) ms)
termination_by structural v => v

def elementChars (margin : List Char) : List Json → List (List Char)
  | [] => []
  | x :: xs => chars margin x :: elementChars margin xs
termination_by structural v => v

def memberChars (margin : List Char) : List (String × Json) → List (List Char)
  | [] => []
  | (k, x) :: ms =>
    ('"' :: k.toList.flatMap escapedChar ++ ['"', ':', ' '] ++ chars margin x) ::
      memberChars margin ms
termination_by structural v => v
end

theorem blockToList (margin : String) (items : List String) :
    (block margin "[" "]" items).toList =
      blockChars margin.toList '[' ']' (items.map String.toList) ∧
    (block margin "\x7b" "\x7d" items).toList =
      blockChars margin.toList '\x7b' '\x7d' (items.map String.toList) := by
  unfold block blockChars
  rw [List.isEmpty_map]
  cases items.isEmpty with
  | true => exact ⟨by simp, by simp⟩
  | false =>
    simp only [Bool.false_eq_true, if_false, String.toList_append, String.toList_intercalate,
      List.map_map, Function.comp_def]
    exact ⟨by simp, by simp⟩

theorem elementsToList {elements : List Json} {margin : String}
    (each : ∀ v ∈ elements, (indented margin v).toList = chars margin.toList v) :
    (indentedElements margin elements).map String.toList =
      elementChars margin.toList elements := by
  induction elements with
  | nil => rfl
  | cons v rest ih =>
    rw [indentedElements, List.map_cons, each v List.mem_cons_self,
      ih fun w inside => each w (List.mem_cons_of_mem v inside), elementChars]

theorem membersToList {members : List (String × Json)} {margin : String}
    (each : ∀ p ∈ members, (indented margin p.2).toList = chars margin.toList p.2) :
    (indentedMembers margin members).map String.toList = memberChars margin.toList members := by
  induction members with
  | nil => rfl
  | cons p rest ih =>
    obtain ⟨name, v⟩ := p
    rw [indentedMembers, List.map_cons, String.toList_append, String.toList_append,
      each (name, v) List.mem_cons_self,
      ih fun q inside => each q (List.mem_cons_of_mem _ inside), memberChars]
    simp [stringText]

theorem indentedToList (v : Json) (margin : String) :
    (indented margin v).toList = chars margin.toList v := by
  induction v using valueInduction generalizing margin with
  | null => simp [indented, chars]
  | bool b => cases b <;> simp [indented, chars]
  | number n => rfl
  | string s => exact String.toList_ofList
  | array elements each =>
    have deeper : (margin ++ "  ").toList = margin.toList ++ [' ', ' '] := by simp
    rw [indented, (blockToList margin _).1, elementsToList fun v inside => each v inside _, deeper]
    rfl
  | object members each =>
    have deeper : (margin ++ "  ").toList = margin.toList ++ [' ', ' '] := by simp
    rw [indented, (blockToList margin _).2, membersToList fun p inside => each p inside _, deeper]
    rfl

def ofChars? (cs : List Char) : Option Json :=
  match value? (2 * cs.length + 2) greatestNesting cs with
  | some (v, rest) => if (skip rest).isEmpty then some v else none
  | none => none

theorem readPretty (v : Json) : readTree? v.pretty = ofChars? (chars [] v) := by
  show ofChars? v.pretty.toList = _
  rw [pretty, indentedToList, String.toList_empty]

end RuleSchema.Json
