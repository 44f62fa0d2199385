import RuleSchema.Yaml.Basic
/-! The tokens of YAML texts. Blocks, which indentation alone makes out, begin and end with
tokens as brackets do. -/
namespace RuleSchema.Yaml

inductive Token where
  | version (major minor : Nat)
  | handle (name tags : String)
  | documentStart
  | documentEnd
  | sequenceStart
  | mappingStart
  | blockEnd
  /-- The dash before an item. -/
  | item
  | key
  | value
  | flowSequenceStart
  | flowSequenceEnd
  | flowMappingStart
  | flowMappingEnd
  | comma
  | aliasTo (name : String)
  | anchor (name : String)
  | tag (handle suffix : String)
  | scalar (style : Style) (text : String)
  deriving DecidableEq, Repr

end RuleSchema.Yaml
