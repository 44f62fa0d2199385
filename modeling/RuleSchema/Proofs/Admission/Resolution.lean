import RuleSchema.Proofs.Admission.Outcome
/-! Fields that are not found. The schema a document shows has a field exactly where the document
has it, so the document is never asked in vain after that schema, and a rule is refused for its
field only where both trees lack it. -/
namespace RuleSchema

section
variable (config : Config) (document : Json)

theorem unresolvedEq (path : FieldPath) : unresolved? config document path =
    if (document.member? path.segments).isNone then
      some ⟨path.text, .schema, suggestion? path.text (Schema.infer config document).fieldPaths⟩
    else none := by
  rw [unresolved?, Schema.inferAt, Option.isNone_map]
  split <;> rfl

variable {config document}

theorem tryRuleResolved {base : Schema} {active : List Rule} {r : Rule} (e : FieldNotFound) :
    tryRule config document base active r ≠ .error (.fieldNotFound e) := by
  intro refused
  unfold tryRule at refused
  split at refused
  · cases refused
  · split at refused <;> cases refused

theorem admitRuleUnresolved {base : Schema} {active : List Rule} {fresh : String} {p : Proposal}
    {e : FieldNotFound}
    (refused : admitRule config document base active fresh p = .error (.fieldNotFound e)) :
    ∃ path, FieldPath.parse p.field = .ok path ∧ unresolved? config document path = some e := by
  rw [admitRuleEq] at refused
  split at refused
  · cases refused
  · rename_i r path made
    split at refused
    · cases refused
    · split at refused
      · cases refused
      · split at refused
        · rename_i found
          cases refused
          exact ⟨path, (Proposal.toRuleOk.mp made).1, found⟩
        · exact absurd refused (tryRuleResolved e)

end

/-- Following a path and showing a schema commute. So what is not found is not found in the
schema first, and is in neither tree. -/
theorem resolutionCommutes (config : Config) (document : Json) :
    (∀ path : FieldPath, (Schema.infer config document).at? path.segments =
      (document.member? path.segments).map (Schema.infer config)) ∧
    (∀ path : FieldPath, ((Schema.infer config document).at? path.segments).isSome =
      (document.member? path.segments).isSome) ∧
    ∀ base active fresh p e,
      admitRule config document base active fresh p = .error (.fieldNotFound e) →
        e.tree = .schema ∧ ∃ path, FieldPath.parse p.field = .ok path ∧ path.text = e.field ∧
          (Schema.infer config document).at? path.segments = none ∧
          document.member? path.segments = none := by
  have commutes : ∀ path : FieldPath, (Schema.infer config document).at? path.segments =
      (document.member? path.segments).map (Schema.infer config) :=
    fun path => Schema.inferAt config document path.segments
  refine ⟨commutes, fun path => by rw [commutes, Option.isSome_map], ?_⟩
  intro base active fresh p e refused
  obtain ⟨path, parsed, unresolved⟩ := admitRuleUnresolved refused
  rw [unresolvedEq] at unresolved
  split at unresolved
  · rename_i absent
    cases unresolved
    rw [Option.isNone_iff_eq_none] at absent
    exact ⟨rfl, path, parsed, rfl, by rw [commutes, absent]; rfl, absent⟩
  · cases unresolved

namespace Sample

/-- A document with a field behind an array, which no path enters. -/
def basket : Json := .object [("lines", .array [.object [("qty", amount 1)]])]

def behind : Proposal := ⟨some "a", "lines.qty", ">", "0", none⟩

end Sample

open Sample in
theorem resolutionCommutesBasket :
    admitRule .standard basket (.bare .object) [] "fresh" behind =
      .error (.fieldNotFound ⟨"lines.qty", .schema, some "lines.qty"⟩) ∧
    ∃ path, FieldPath.parse "lines.qty" = .ok path ∧
      (Schema.infer .standard basket).at? path.segments = none ∧
      basket.member? path.segments = none := by
  have refused : admitRule .standard basket (.bare .object) [] "fresh" behind =
      .error (.fieldNotFound ⟨"lines.qty", .schema, some "lines.qty"⟩) := by
    rfl
  obtain ⟨_, path, parsed, _, shown, absent⟩ :=
    (resolutionCommutes .standard basket).2.2 _ _ _ _ _ refused
  exact ⟨refused, path, parsed, shown, absent⟩

end RuleSchema
