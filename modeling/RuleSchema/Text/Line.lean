import RuleSchema.Text.Separated
/-! Lines of a text. -/
namespace RuleSchema.Text

def withoutReturn (line : List Char) : List Char :=
  if line.getLast? = some '\r' then line.dropLast else line

/-- The lines of a text without their ends. What follows the last line end is a line unless it
is empty. -/
def lines (s : String) : List String :=
  let parts := fieldChars '\n' s.toList
  let last := parts.getLast?.getD []
  parts.dropLast.map (String.ofList ∘ withoutReturn) ++
    (if last.isEmpty then [] else [String.ofList last])

end RuleSchema.Text
