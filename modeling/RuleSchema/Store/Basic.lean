import RuleSchema.Json.Basic
import RuleSchema.Rule.Basic
/-! Where admitted rules and merged schemas are kept. A store is its four operations in some
monad; each answers or says why it could not. -/
namespace RuleSchema

structure SchemaRecord where
  name : String
  content : Json
  deriving DecidableEq, Repr

inductive StoreError where
  | unavailable (reason : String)
  | serialization (detail : String)
  | io (detail : String)
  deriving DecidableEq, Repr

def StoreError.message : StoreError → String
  | .unavailable reason => "repository unavailable: " ++ reason
  | .serialization detail => "repository serialization error: " ++ detail
  | .io detail => "repository io error: " ++ detail

structure Store (m : Type → Type) where
  saveRule : Rule → m (Except StoreError Rule)
  schema? : String → m (Except StoreError (Option SchemaRecord))
  upsertSchema : String → Json → m (Except StoreError SchemaRecord)
  rules : m (Except StoreError (List Rule))

def Store.lift {m n : Type → Type} (f : {α : Type} → m α → n α) (s : Store m) : Store n where
  saveRule r := f (s.saveRule r)
  schema? name := f (s.schema? name)
  upsertSchema name content := f (s.upsertSchema name content)
  rules := f s.rules

/-- What a store holds: rules in the order they were first saved, schemas under their names. -/
structure Records where
  rules : List Rule
  schemas : Keyed SchemaRecord
  deriving DecidableEq, Repr

namespace Records

def empty : Records := ⟨[], []⟩

/-- Puts a rule in the place of the first one with its identifier, or at the end. -/
def putRule (r : Rule) : List Rule → List Rule
  | [] => [r]
  | old :: rest => if old.id = r.id then r :: rest else old :: putRule r rest

def saveRule (records : Records) (r : Rule) : Records :=
  { records with rules := putRule r records.rules }

def upsertSchema (records : Records) (record : SchemaRecord) : Records :=
  { records with schemas := Keyed.insert record.name record records.schemas }

end Records

end RuleSchema
