import RuleSchema.Store.Basic
/-! The store whose records are the state itself. -/
namespace RuleSchema

def Store.memory {m : Type → Type} [Monad m] : Store (StateT Records m) where
  saveRule r := fun records => pure (.ok r, records.saveRule r)
  schema? name := fun records => pure (.ok (records.schemas.get? name), records)
  upsertSchema name content := fun records =>
    pure (.ok ⟨name, content⟩, records.upsertSchema ⟨name, content⟩)
  rules := fun records => pure (.ok records.rules, records)

end RuleSchema
