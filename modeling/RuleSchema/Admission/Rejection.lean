import RuleSchema.Report
import RuleSchema.Resolution
import RuleSchema.Rule.Basic
import RuleSchema.Store.Basic
import RuleSchema.Validation.SchemaFault
/-! Why a rule is not admitted. -/
namespace RuleSchema

structure FieldNotFound where
  field : String
  tree : Tree
  suggestion : Option String
  deriving DecidableEq, Repr

def FieldNotFound.message (e : FieldNotFound) : String :=
  "field " ++ Text.quoted e.field ++ " does not exist in the " ++ e.tree.name ++
    match e.suggestion with
    | some s => " (did you mean " ++ Text.quoted s ++ "?)"
    | none => ""

inductive Rejection where
  | shape (e : ShapeError)
  | operatorMismatch (e : OperatorMismatch)
  | fieldNotFound (e : FieldNotFound)
  | conflict (ruleId : String) (issues : List Issue)
  | schemaFault (f : SchemaFault)
  | store (e : StoreError)

def Rejection.message : Rejection → String
  | .shape e => e.message
  | .operatorMismatch e => e.message
  | .fieldNotFound e => e.message
  | .conflict ruleId issues =>
    "rule " ++ ruleId ++ " conflicts with the reference document: " ++
      ", ".intercalate (issues.map Issue.text)
  | .schemaFault f => f.message
  | .store e => "rule store error: " ++ e.message

/-- How many characters two texts share from their start on. -/
def sharedLength : List Char → List Char → Nat
  | a :: as, b :: bs => if a = b then sharedLength as bs + 1 else 0
  | _, _ => 0

/-- The declared path that shares the longest beginning with a field, the last of several. -/
def suggestion? (field : String) (declared : List String) : Option String :=
  let shared (path : String) := sharedLength field.toList path.toList
  declared.foldl (fun best path =>
    if shared path = 0 then best
    else match best with
      | some b => if shared b ≤ shared path then some path else best
      | none => some path) none

end RuleSchema
