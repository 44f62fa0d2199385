import RuleSchema.Json.Record
/-! Keywords that bound the values of a schema node. -/
namespace RuleSchema

structure Constraints where
  minimum : Option Binary64
  maximum : Option Binary64
  exclusiveMinimum : Option Bool
  exclusiveMaximum : Option Bool
  /-- Values of which one must be met. -/
  allowed : Option (List Json)
  /-- Values of which none may be met. -/
  forbidden : Option (List Json)
  deriving DecidableEq, Repr

namespace Constraints

def empty : Constraints := ⟨none, none, none, none, none, none⟩

instance : Inhabited Constraints := ⟨empty⟩

def isEmpty (c : Constraints) : Bool := c == empty

/-- The keywords of `upper` where it has them. A bound brings its exclusive flag along, even
an absent one. -/
def overlay (c upper : Constraints) : Constraints where
  minimum := upper.minimum <|> c.minimum
  exclusiveMinimum := if upper.minimum.isSome then upper.exclusiveMinimum else c.exclusiveMinimum
  maximum := upper.maximum <|> c.maximum
  exclusiveMaximum := if upper.maximum.isSome then upper.exclusiveMaximum else c.exclusiveMaximum
  allowed := upper.allowed <|> c.allowed
  forbidden := upper.forbidden <|> c.forbidden

/-- Keyword `key`, if it has a value. -/
def keyword {α : Type} (key : String) (write : α → Json) : Option α → List (String × Json)
  | some v => [(key, write v)]
  | none => []

def bound (x : Binary64) : Json := .number (.binary x)

/-- The keywords before `format`, `items` and the rest in key order. -/
def leadingMembers (c : Constraints) : List (String × Json) :=
  keyword "enum" .array c.allowed ++
  keyword "exclusiveMaximum" .bool c.exclusiveMaximum ++
  keyword "exclusiveMinimum" .bool c.exclusiveMinimum

def trailingMembers (c : Constraints) : List (String × Json) :=
  keyword "maximum" bound c.maximum ++
  keyword "minimum" bound c.minimum ++
  keyword "not" (fun values => .object [("enum", .array values)]) c.forbidden

def toJson (c : Constraints) : Json := .object (c.leadingMembers ++ c.trailingMembers)

def fieldNames : List String :=
  ["minimum", "maximum", "exclusiveMinimum", "exclusiveMaximum", "enum", "not"]

def bound? : Json → Option Binary64
  | .number n => n.toBinary64?
  | _ => none

def negation? (v : Json) : Option (List Json) :=
  match v.recordFields? ["enum"] with
  | some [values] => Json.required? Json.elementList? values
  | _ => none

def ofFields? : List (Option Json) → Option Constraints
  | [minimum, maximum, exclusiveMinimum, exclusiveMaximum, allowed, forbidden] => do
    let minimum ← Json.optional? bound? minimum
    let maximum ← Json.optional? bound? maximum
    let exclusiveMinimum ← Json.optional? Json.flag? exclusiveMinimum
    let exclusiveMaximum ← Json.optional? Json.flag? exclusiveMaximum
    let allowed ← Json.optional? Json.elementList? allowed
    let forbidden ← Json.optional? negation? forbidden
    some ⟨minimum, maximum, exclusiveMinimum, exclusiveMaximum, allowed, forbidden⟩
  | _ => none

def ofJson? (v : Json) : Option Constraints := (v.recordFields? fieldNames).bind ofFields?

end Constraints

end RuleSchema
