import RuleSchema.Proofs.Schema.InPlace
import RuleSchema.Validation.SchemaFault
/-! Schemas without faults. Every exclusive flag stands with its bound and no name is required
twice, at every node; rules laid over such a schema never make it unusable. -/
namespace RuleSchema

namespace Schema

theorem flagFaultNone {c : Constraints} : flagFault? c = none ↔
    (c.exclusiveMaximum.isSome → c.maximum.isSome) ∧
      (c.exclusiveMinimum.isSome → c.minimum.isSome) := by
  unfold flagFault?
  cases c.exclusiveMaximum <;> cases c.maximum <;> cases c.exclusiveMinimum <;>
    cases c.minimum <;> simp

theorem propertiesFaultNone {properties : List (String × Schema)} :
    propertiesFault? properties = none ↔ ∀ p ∈ properties, p.2.fault? = none := by
  induction properties with
  | nil => simp [propertiesFault?]
  | cons p rest ih =>
    obtain ⟨name, child⟩ := p
    simp [propertiesFault?, ih]

theorem faultNone {s : Schema} : s.fault? = none ↔
    flagFault? s.constraints = none ∧ (∀ t, s.items = some t → t.fault? = none) ∧
      (∀ p ∈ s.properties, p.2.fault? = none) ∧ s.required.Nodup := by
  rw [← propertiesFaultNone]
  obtain ⟨kind, properties, required, items, format, constraints⟩ := s
  cases items <;> simp [fault?, itemsFault?, and_left_comm, and_comm]

theorem bareSound (kind : Kind) : (bare kind).fault? = none :=
  faultNone.mpr ⟨rfl, nofun, nofun, List.nodup_nil⟩

theorem overlaySound {c : Constraints} (sound : flagFault? c = none) (upper : Constraints) :
    flagFault? (c.overlay upper) = none := by
  rw [flagFaultNone] at sound ⊢
  unfold Constraints.overlay
  constructor
  · cases bound : upper.maximum with
    | none => simpa [bound] using sound.1
    | some x => simp
  · cases bound : upper.minimum with
    | none => simpa [bound] using sound.2
    | some x => simp

theorem addNameNodup {names : List String} (distinct : names.Nodup) (name : String) :
    (addName names name).Nodup := by
  unfold addName
  split
  · exact distinct
  · rename_i absent
    have fresh : ∀ other ∈ names, other ≠ name := by
      rintro other inside rfl
      simp [inside] at absent
    rw [List.nodup_append]
    exact ⟨distinct, by simp, by simpa using fresh⟩

theorem addNamesNodup {names : List String} (distinct : names.Nodup) (more : List String) :
    (more.foldl addName names).Nodup := by
  induction more generalizing names with
  | nil => exact distinct
  | cons first rest ih => exact ih (addNameNodup distinct first)

theorem propertySound {s child : Schema} {name : String} (sound : s.fault? = none)
    (found : s.property? name = some child) : child.fault? = none :=
  (faultNone.mp sound).2.2.1 (name, child) (Keyed.memOfGet found)

theorem withChildSound {s child : Schema} (sound : s.fault? = none) (name : String)
    (below : child.fault? = none) : (s.withChild name child).fault? = none := by
  obtain ⟨flags, items, children, names⟩ := faultNone.mp sound
  refine faultNone.mpr ⟨flags, items, fun p inside => ?_, addNameNodup names name⟩
  rcases Keyed.memInsert inside with rfl | old
  · exact below
  · exact children p old

theorem imposeSound {r : Rule} {s : Schema} {base : Option Schema} (sound : s.fault? = none)
    (baseSound : ∀ b, base = some b → b.fault? = none) (path : List String) :
    (impose r s base path).fault? = none := by
  refine imposeInvariant ?_ propertySound withChildSound bareSound sound baseSound path
  intro s fine
  obtain ⟨flags, rest⟩ := faultNone.mp fine
  exact faultNone.mpr ⟨overlaySound flags _, rest⟩

theorem mergePropertiesSound {properties upper : List (String × Schema)}
    (sound : ∀ p ∈ properties, p.2.fault? = none) (upperSound : ∀ p ∈ upper, p.2.fault? = none)
    (merged : ∀ p ∈ upper, ∀ s : Schema, s.fault? = none → (merge s p.2).fault? = none) :
    ∀ p ∈ mergeProperties properties upper, p.2.fault? = none := by
  induction upper generalizing properties with
  | nil => exact sound
  | cons q rest ih =>
    obtain ⟨name, t⟩ := q
    refine ih (fun p inside => ?_) (fun p inside => upperSound p (List.mem_cons_of_mem _ inside))
      fun p inside => merged p (List.mem_cons_of_mem _ inside)
    rcases Keyed.memInsert inside with rfl | old
    · cases found : Keyed.get? properties name with
      | none => exact upperSound (name, t) List.mem_cons_self
      | some s =>
        exact merged (name, t) List.mem_cons_self s (sound (name, s) (Keyed.memOfGet found))
    · exact sound p old

theorem mergeSound {s upper : Schema} (sound : s.fault? = none)
    (upperSound : upper.fault? = none) : (merge s upper).fault? = none := by
  induction upper using treeInduction generalizing s with
  | node upper childMerged _ =>
    obtain ⟨flags, own, children, names⟩ := faultNone.mp sound
    obtain ⟨_, upperItems, upperChildren, _⟩ := faultNone.mp upperSound
    have below := mergePropertiesSound children upperChildren fun p inside s fine =>
      childMerged p inside fine (upperChildren p inside)
    rw [mergeFields]
    refine faultNone.mpr ⟨overlaySound flags _, fun t found => ?_, below, addNamesNodup names _⟩
    rcases Option.or_eq_some_iff.mp found with kept | ⟨_, given⟩
    · exact own t kept
    · exact upperItems t given

theorem ofRulesSound {base upper : Schema} {rules : List Rule} (sound : base.fault? = none)
    (compiled : ofRules base rules = .ok upper) : upper.fault? = none := by
  refine ofRulesInduction (motive := fun s => s.fault? = none) compiled (bareSound .object)
    fun s r _ fine => ?_
  exact imposeSound fine (fun b same => Option.some.inj same ▸ sound) r.segments

/-- Rules laid over a schema without fault leave it without fault, whether or not they compile. -/
theorem withRulesSound {base : Schema} (sound : base.fault? = none) (rules : List Rule) :
    (base.withRules rules).fault? = none := by
  cases compiled : ofRules base rules with
  | ok upper =>
    rw [withRulesMerged compiled]
    exact mergeSound sound (ofRulesSound sound compiled)
  | error e =>
    rw [withRulesError compiled]
    exact sound

end Schema

end RuleSchema
