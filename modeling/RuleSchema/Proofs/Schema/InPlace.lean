import RuleSchema.Proofs.Schema.Imposition
import RuleSchema.Proofs.Schema.Merging
/-! The schema of a list of rules, merged over the base it was made for, is the base with the
rules laid on it in place. Seeding a node from the base and merging it back changes nothing. -/
namespace RuleSchema

namespace Schema

/-- Where two trees have a node in the same place, other than the root, its kind is the same. -/
def SameKinds (base upper : Schema) : Prop :=
  ∀ place b u, place ≠ [] → base.at? place = some b → upper.at? place = some u → u.kind = b.kind

theorem SameKinds.refl (s : Schema) : SameKinds s s := by
  intro place b u _ left right
  rw [left] at right
  cases right
  rfl

theorem SameKinds.child {base upper b u : Schema} {name : String}
    (kinds : SameKinds base upper) (left : base.property? name = some b)
    (right : upper.property? name = some u) : SameKinds b u ∧ u.kind = b.kind := by
  have below : ∀ place, base.at? (name :: place) = b.at? place ∧
      upper.at? (name :: place) = u.at? place := fun place => by
    simp [atCons, left, right]
  refine ⟨fun place x y _ atLeft atRight => ?_, ?_⟩
  · exact kinds (name :: place) x y (by simp) ((below place).1.trans atLeft)
      ((below place).2.trans atRight)
  · exact kinds [name] b u (by simp) (below []).1 (below []).2

theorem imposeKind (r : Rule) (s : Schema) (base : Option Schema) (path : List String) :
    (impose r s base path).kind = s.kind := by
  cases path <;> rfl

theorem imposeSameKinds {r : Rule} {base upper : Schema} (kinds : SameKinds base upper)
    (path : List String) : SameKinds base (impose r upper (some base) path) := by
  induction path generalizing base upper with
  | nil =>
    intro place b u inside left right
    cases place with
    | nil => contradiction
    | cons first later => exact kinds (first :: later) b u inside left right
  | cons name rest ih =>
    intro place b u inside left right
    cases place with
    | nil => contradiction
    | cons first later =>
      by_cases same : name = first
      · subst same
        rw [atCons] at left
        obtain ⟨baseChild, declared, leftBelow⟩ := Option.bind_eq_some_iff.mp left
        have seeds : ∃ child, upper.childOr (some base) name (bare (newKind r rest)) = child ∧
            SameKinds baseChild child ∧ child.kind = baseChild.kind := by
          cases own : upper.property? name with
          | some child => exact ⟨child, childOrOwn own _ _, kinds.child declared own⟩
          | none => exact ⟨baseChild, by simp [childOr, own, declared], .refl _, rfl⟩
        obtain ⟨child, seeded, below, sameKind⟩ := seeds
        have right : (impose r child (some baseChild) rest).at? later = some u := by
          simpa [impose, atCons, propertyWithChild, seeded, declared] using right
        cases later with
        | nil =>
          cases leftBelow
          cases right
          exact (imposeKind r child _ rest).trans sameKind
        | cons second later => exact ih below (second :: later) b u (by simp) leftBelow right
      · refine kinds (first :: later) b u inside left ?_
        simpa [impose, atCons, propertyWithChild, same] using right

/-- Merging what a rule made of an upper schema is laying the rule on the merged schema. -/
theorem mergeImpose {r : Rule} {base upper : Schema} (ordered : base.Ordered)
    (upperOrdered : upper.Ordered) (kinds : SameKinds base upper) {path : List String}
    (root : path = [] → upper.kind = base.kind) :
    merge base (impose r upper (some base) path) = impose r (merge base upper) none path := by
  induction path generalizing base upper with
  | nil =>
    have sameKind := root rfl
    obtain ⟨kind, properties, required, items, format, constraints⟩ := upper
    simp only at sameKind
    subst sameKind
    simp [impose, merge, Constraints.overlayAssoc]
  | cons name rest ih =>
    -- The child laid over: the upper schema's own, or else a copy of the base's, or a new one.
    have child : ((base.property? name).map fun s => merge s (impose r
          (upper.childOr (some base) name (bare (newKind r rest)))
          (base.property? name) rest)).getD (impose r
          (upper.childOr (some base) name (bare (newKind r rest)))
          (base.property? name) rest) =
        impose r ((merge base upper).childOr none name (bare (newKind r rest))) none rest := by
      unfold childOr
      rw [propertyMerge base upperOrdered.keys]
      cases declared : base.property? name with
      | none => cases own : upper.property? name <;> simp [declared]
      | some b =>
        cases own : upper.property? name with
        | none =>
          simpa [declared, mergeSelf (ordered.child declared)] using
            ih (ordered.child declared) (ordered.child declared) (.refl b) fun _ => rfl
        | some u =>
          obtain ⟨below, sameKind⟩ := kinds.child declared own
          simpa using ih (ordered.child declared) (upperOrdered.child own) below fun _ => sameKind
    obtain ⟨kind, properties, required, items, format, constraints⟩ := upper
    have names := addNamesAdd base.required required name
    have merged := mergePropertiesInsert ordered.keys upperOrdered.keys name
      (impose r (childOr ⟨kind, properties, required, items, format, constraints⟩ (some base) name
        (bare (newKind r rest))) (base.property? name) rest)
    rw [show Keyed.get? base.properties name = base.property? name from rfl, child] at merged
    simp only [impose, withChild, require, merge, Option.bind_some, Option.bind_none, names, merged]

theorem bareSameKinds (base : Schema) (kind : Kind) : SameKinds base (bare kind) := by
  intro place b u inside _ right
  cases place with
  | nil => contradiction
  | cons first later => simp [atCons, property?, bare, Keyed.get?] at right

theorem mergeImposeAll {base upper : Schema} (ordered : base.Ordered)
    (upperOrdered : upper.Ordered) (kinds : SameKinds base upper) {rules : List Rule}
    (compile : ∀ r ∈ rules, r.Compiles) :
    merge base (rules.foldl (fun s r => impose r s (some base) r.segments) upper) =
      (merge base upper).imposeAll rules := by
  induction rules generalizing upper with
  | nil => rfl
  | cons r rest ih =>
    have nonempty := (compile r List.mem_cons_self).segmentsNonempty
    rw [List.foldl_cons, ih (imposeOrdered upperOrdered (by simp [ordered]) _)
      (imposeSameKinds kinds _) (fun q inside => compile q (List.mem_cons_of_mem r inside)),
      mergeImpose ordered upperOrdered kinds fun empty => absurd empty nonempty]
    rfl

theorem withRulesMerged {base upper : Schema} {rules : List Rule}
    (compiled : ofRules base rules = .ok upper) : base.withRules rules = merge base upper := by
  cases rules with
  | nil =>
    cases compiled
    exact (mergeBare base .object).symm
  | cons r rest => simp [withRules, compiled]

/-- Merging the schema of a list of rules over its base lays the rules on the base. -/
theorem withRulesInPlace {base : Schema} (ordered : base.Ordered) {rules : List Rule}
    (compile : ∀ r ∈ rules, r.Compiles) : base.withRules rules = base.imposeAll rules := by
  rw [withRulesMerged (ofRulesImposes base compile),
    mergeImposeAll ordered (bareOrdered .object) (bareSameKinds base .object) compile, mergeBare]

theorem withRulesError {base : Schema} {rules : List Rule} {e : CompileError}
    (failed : ofRules base rules = .error e) : base.withRules rules = base := by
  simp only [withRules, failed, ite_self]

theorem withRulesOrdered {base : Schema} (ordered : base.Ordered) (rules : List Rule) :
    (base.withRules rules).Ordered := by
  cases compiled : ofRules base rules with
  | ok upper =>
    rw [withRulesInPlace ordered (compilesOfRules compiled)]
    exact imposeAllOrdered ordered rules
  | error e =>
    rw [withRulesError compiled]
    exact ordered

end Schema

end RuleSchema
