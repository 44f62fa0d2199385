import RuleSchema.Text.Blank
/-! The six comparison operators of rules. -/
namespace RuleSchema

inductive Condition where
  | equal
  | notEqual
  | greater
  | less
  | greaterOrEqual
  | lessOrEqual
  deriving DecidableEq, Repr

namespace Condition

def all : List Condition := [equal, notEqual, greater, less, greaterOrEqual, lessOrEqual]

def token : Condition → String
  | equal => "=="
  | notEqual => "!="
  | greater => ">"
  | less => "<"
  | greaterOrEqual => ">="
  | lessOrEqual => "<="

def ofToken? (token : String) : Option Condition := all.find? fun c => c.token == token

/-- Blanks around the token do not count. -/
def parse? (text : String) : Option Condition := ofToken? (Text.trim text)

/-- Whether the operator orders its sides, and so needs numbers. -/
def isRelational : Condition → Bool
  | equal | notEqual => false
  | greater | less | greaterOrEqual | lessOrEqual => true

def phrase : Condition → String
  | equal => "must be equal to"
  | notEqual => "must not be equal to"
  | greater => "must be greater than"
  | less => "must be less than"
  | greaterOrEqual => "must be greater than or equal to"
  | lessOrEqual => "must be less than or equal to"

theorem ofTokenToken (c : Condition) : ofToken? c.token = some c := by
  cases c <;> decide

end Condition

end RuleSchema
