import RuleSchema.Rule.Basic
/-! Rules as lines of input: `field condition value`, or the word that ends the input. -/
namespace RuleSchema

inductive InputLine where
  | proposal (p : Proposal)
  | done
  deriving DecidableEq, Repr

namespace InputLine

def doneWord : String := "done"

def lowerAscii (s : String) : String := String.ofList (s.toList.map Char.toLower)

/-- The value is all words after the condition, one blank between two. -/
def parse (line : String) : Except ShapeError InputLine :=
  let trimmed := Text.trim line
  if lowerAscii trimmed = doneWord then .ok .done
  else match Text.words trimmed with
    | field :: condition :: word :: rest =>
      .ok (.proposal ⟨none, field, condition, Text.joined ' ' (word :: rest), none⟩)
    | _ => .error (.malformedLine trimmed)

end InputLine

end RuleSchema
