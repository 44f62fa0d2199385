import RuleSchema.Json.Pointer
import RuleSchema.Schema.Document
import RuleSchema.Text.Quoted
/-! References inside schema documents. An object with a text under `$ref` stands for the
place the text points to; what stands beside the reference does not count. -/
namespace RuleSchema

inductive ReferenceError where
  | unresolved (reference : String)
  | cyclic (reference : String)
  | external (reference : String)
  deriving DecidableEq, Repr

def ReferenceError.message : ReferenceError → String
  | .unresolved r => "unresolved $ref " ++ Text.quoted r
  | .cyclic r => "cyclic $ref " ++ Text.quoted r
  | .external r =>
    "unsupported $ref " ++ Text.quoted r ++ ": only document-local pointers are expanded"

namespace Json

def reference? (members : List (String × Json)) : Option String :=
  (Keyed.get? members "$ref").bind fun
    | .string r => some r
    | _ => none

section
variable {m : Type → Type} [Monad m]

mutual
/-- The value with every reference replaced by what `follow` makes of it, in the order they
stand. -/
def replaceReferences (follow : String → m Json) : Json → m Json
  | .object members => match reference? members with
    | some r => follow r
    | none => .object <$> replaceInMembers follow members
  | .array elements => .array <$> replaceInElements follow elements
  | .null => pure .null
  | .bool b => pure (.bool b)
  | .number n => pure (.number n)
  | .string s => pure (.string s)
termination_by structural v => v

def replaceInElements (follow : String → m Json) : List Json → m (List Json)
  | [] => pure []
  | v :: rest => do
    let v ← replaceReferences follow v
    let rest ← replaceInElements follow rest
    return v :: rest
termination_by structural v => v

def replaceInMembers (follow : String → m Json) :
    List (String × Json) → m (List (String × Json))
  | [] => pure []
  | (key, v) :: rest => do
    let v ← replaceReferences follow v
    let rest ← replaceInMembers follow rest
    return (key, v) :: rest
termination_by structural v => v
end

end

mutual
/-- All references in a value, in the order they stand. -/
def references : Json → List String
  | .object members => (reference? members).toList ++ memberReferences members
  | .array elements => elementReferences elements
  | .null | .bool _ | .number _ | .string _ => []
termination_by structural v => v

def elementReferences : List Json → List String
  | [] => []
  | v :: rest => references v ++ elementReferences rest
termination_by structural v => v

def memberReferences : List (String × Json) → List String
  | [] => []
  | (_, v) :: rest => references v ++ memberReferences rest
termination_by structural v => v
end

def target (root : Json) (reference : String) : Except ReferenceError Json :=
  match reference.toList with
  | '#' :: pointer => match root.at? (String.ofList pointer) with
    | some v => .ok v
    | none => .error (.unresolved reference)
  | _ => .error (.external reference)

/-- Expands a value inside a document while the references in `active` are being followed.
The number bounds how many more may be followed inside each other. -/
def expandWithin (root : Json) : Nat → List String → Json → Except ReferenceError Json
  | 0, _, v => v.replaceReferences fun r =>
    if r.toList.head? = some '#' then .error (.cyclic r) else .error (.external r)
  | n + 1, active, v => v.replaceReferences fun r =>
    if r.toList.head? = some '#' ∧ r ∈ active then .error (.cyclic r)
    else match target root r with
      | .ok place => expandWithin root n (r :: active) place
      | .error e => .error e

/-- The document with all its references expanded. No more references can be followed inside
each other than the document has, for each is followed once only. -/
def expandReferences (root : Json) : Except ReferenceError Json :=
  expandWithin root root.references.length [] root

end Json

inductive LoadError where
  | reference (e : ReferenceError)
  | invalidShape
  deriving DecidableEq, Repr

def Schema.load (document : Json) : Except LoadError Schema :=
  match document.expandReferences with
  | .error e => .error (.reference e)
  | .ok expanded => match Schema.ofJson? expanded with
    | some s => .ok s
    | none => .error .invalidShape

end RuleSchema
