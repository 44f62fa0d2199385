import RuleSchema.Schema.Basic
/-! The dotted paths a schema declares. Fields of array elements are listed under the name
of the array. -/
namespace RuleSchema.Schema

/-- A name under a path; the empty path is the root. -/
def under (path name : String) : String := if path = "" then name else path ++ "." ++ name

mutual
def fieldsUnder (path : String) : Schema → List String
  | ⟨_, properties, _, _, _, _⟩ => propertyFields path properties
termination_by structural s => s

def propertyFields (path : String) : List (String × Schema) → List String
  | [] => []
  | (name, s) :: rest =>
    under path name :: (fieldsUnder (under path name) s ++ elementFields (under path name) s) ++
      propertyFields path rest
termination_by structural s => s

def elementFields (path : String) : Schema → List String
  | ⟨_, _, _, items, _, _⟩ => itemFields path items
termination_by structural s => s

def itemFields (path : String) : Option Schema → List String
  | none => []
  | some s => fieldsUnder path s
termination_by structural s => s
end

/-- Every declared path, a name before the names below it. -/
def fieldPaths (s : Schema) : List String := fieldsUnder "" s

end RuleSchema.Schema
