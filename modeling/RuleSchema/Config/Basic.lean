/-! Settings of inference, validation and admission. -/
namespace RuleSchema

structure FormatSwitches where
  uuid : Bool
  date : Bool
  deriving DecidableEq, Repr

structure Config where
  /-- Name under which the merged schema is stored. -/
  schemaName : String
  /-- Names that are never missed in a document. -/
  optionalFields : List String
  formats : FormatSwitches
  deriving DecidableEq, Repr

namespace Config

def standard : Config := ⟨"invoice", ["purchaseOrderNumber"], ⟨true, true⟩⟩

def isOptional (c : Config) (name : String) : Bool := c.optionalFields.contains name

def withOptionalFields (c : Config) (names : List String) : Config :=
  { c with optionalFields := names }

end Config

end RuleSchema
