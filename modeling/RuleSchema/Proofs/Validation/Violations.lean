import RuleSchema.Proofs.Schema.InPlace
import RuleSchema.Validation.Engine
/-! What a schema finds in a value, node by node. Laying a rule on a schema changes the
violations at the rule's own node only, and a schema that keeps all nodes of another and their
keywords finds whatever that one finds. -/
namespace RuleSchema

namespace Constraints

def unmet (c : Constraints) (v : Json) : List Breach :=
  c.allowed.toList.filterMap fun values =>
    if isAmong v values then none else some (.notAllowed values)

def met (c : Constraints) (v : Json) : List Breach :=
  c.forbidden.toList.filterMap fun values =>
    if isAmong v values then some (.forbidden values) else none

def breaches (c : Constraints) (v : Json) : List Breach :=
  c.unmet v ++ (aboveMaximum? c v).toList ++ (belowMinimum? c v).toList ++ c.met v

theorem aboveNone {c : Constraints} (absent : c.maximum = none) (v : Json) :
    aboveMaximum? c v = none := by
  cases v <;> simp [aboveMaximum?, absent]

theorem belowNone {c : Constraints} (absent : c.minimum = none) (v : Json) :
    belowMinimum? c v = none := by
  cases v <;> simp [belowMinimum?, absent]

/-- Two lists of breaches for one keyword, of which the upper one counts if it is there. -/
def Supersedes (upper lower both : List Breach) : Prop :=
  both = upper ∨ upper = [] ∧ both = lower

theorem unmetOverlay (c upper : Constraints) (v : Json) :
    Supersedes (upper.unmet v) (c.unmet v) ((c.overlay upper).unmet v) := by
  cases values : upper.allowed with
  | none => exact .inr ⟨by simp [unmet, values], by simp [unmet, overlay, values]⟩
  | some _ => exact .inl (by simp [unmet, overlay, values])

theorem metOverlay (c upper : Constraints) (v : Json) :
    Supersedes (upper.met v) (c.met v) ((c.overlay upper).met v) := by
  cases values : upper.forbidden with
  | none => exact .inr ⟨by simp [met, values], by simp [met, overlay, values]⟩
  | some _ => exact .inl (by simp [met, overlay, values])

theorem aboveOverlay (c upper : Constraints) (v : Json) :
    Supersedes (aboveMaximum? upper v).toList (aboveMaximum? c v).toList
      (aboveMaximum? (c.overlay upper) v).toList := by
  cases bound : upper.maximum with
  | none =>
    exact .inr ⟨by rw [aboveNone bound]; rfl, by
      cases v <;> simp [aboveMaximum?, overlay, bound]⟩
  | some _ => exact .inl (by cases v <;> simp [aboveMaximum?, overlay, bound])

theorem belowOverlay (c upper : Constraints) (v : Json) :
    Supersedes (belowMinimum? upper v).toList (belowMinimum? c v).toList
      (belowMinimum? (c.overlay upper) v).toList := by
  cases bound : upper.minimum with
  | none =>
    exact .inr ⟨by rw [belowNone bound]; rfl, by
      cases v <;> simp [belowMinimum?, overlay, bound]⟩
  | some _ => exact .inl (by cases v <;> simp [belowMinimum?, overlay, bound])

theorem breachesEmpty (v : Json) : empty.breaches v = [] := by
  cases v <;> rfl

end Constraints

namespace Schema
variable {switches : FormatSwitches}

theorem propertyViolationsEq (place : List String) (properties : List (String × Schema))
    (v : Json) :
    propertyViolations switches place properties v =
      properties.flatMap fun p => ((v.get? p.1).toList.flatMap fun child =>
        p.2.violations switches (place ++ [p.1]) child) := by
  induction properties with
  | nil => rfl
  | cons p rest ih =>
    obtain ⟨name, s⟩ := p
    rw [propertyViolations, ih]
    cases found : v.get? name <;> simp [found]

theorem objectItems (items : Option Schema) (place : List String)
    (members : List (String × Json)) :
    itemViolations switches place items (.object members) = [] := by
  cases items <;> simp [itemViolations]

theorem violationsEq (s : Schema) (place : List String) (v : Json) :
    s.violations switches place v =
      (s.constraints.unmet v).map (Violation.mk place v) ++
      (formatBreach? switches s.format v).toList.map (Violation.mk place v) ++
      itemViolations switches place s.items v ++
      (aboveMaximum? s.constraints v).toList.map (Violation.mk place v) ++
      (belowMinimum? s.constraints v).toList.map (Violation.mk place v) ++
      (s.constraints.met v).map (Violation.mk place v) ++
      propertyViolations switches place s.properties v ++
      (missingNames s.required v).map (fun name => ⟨place, v, .missing name⟩) ++
      (if s.kind.admits v then [] else [⟨place, v, .wrongKind s.kind⟩]) := by
  obtain ⟨kind, properties, required, items, format, c⟩ := s
  have allowed : (c.unmet v).map (Violation.mk place v) = c.allowed.toList.filterMap fun values =>
      if isAmong v values then none else some ⟨place, v, .notAllowed values⟩ := by
    unfold Constraints.unmet
    cases c.allowed with
    | none => rfl
    | some values => cases among : isAmong v values <;> simp [among]
  have forbidden : (c.met v).map (Violation.mk place v) = c.forbidden.toList.filterMap fun values =>
      if isAmong v values then some ⟨place, v, .forbidden values⟩ else none := by
    unfold Constraints.met
    cases c.forbidden with
    | none => rfl
    | some values => cases among : isAmong v values <;> simp [among]
  rw [allowed, forbidden, violations]

/-- What a schema finds in a value at a place, by the part that finds it. -/
inductive Finds (switches : FormatSwitches) (s : Schema) (place : List String) (v : Json) :
    Violation → Prop where
  | keyword {b : Breach} (breach : b ∈ s.constraints.breaches v) :
      Finds switches s place v ⟨place, v, b⟩
  | format {b : Breach} (breach : formatBreach? switches s.format v = some b) :
      Finds switches s place v ⟨place, v, b⟩
  | item {w : Violation} (inside : w ∈ itemViolations switches place s.items v) :
      Finds switches s place v w
  | property {name : String} {child : Schema} {x : Json} {w : Violation}
      (declared : (name, child) ∈ s.properties) (present : v.get? name = some x)
      (inside : w ∈ child.violations switches (place ++ [name]) x) : Finds switches s place v w
  | missing {name : String} (absent : name ∈ missingNames s.required v) :
      Finds switches s place v ⟨place, v, .missing name⟩
  | kind (refused : s.kind.admits v = false) :
      Finds switches s place v ⟨place, v, .wrongKind s.kind⟩

theorem inPropertyViolations {place : List String} {properties : List (String × Schema)}
    {v : Json} {w : Violation} :
    w ∈ propertyViolations switches place properties v ↔
      ∃ name s child, (name, s) ∈ properties ∧ v.get? name = some child ∧
        w ∈ s.violations switches (place ++ [name]) child := by
  simp only [propertyViolationsEq, List.mem_flatMap, Option.mem_toList, Prod.exists]
  constructor
  · rintro ⟨name, s, inside, child, found, there⟩
    exact ⟨name, s, child, inside, found, there⟩
  · rintro ⟨name, s, child, inside, found, there⟩
    exact ⟨name, s, inside, child, found, there⟩

theorem findsOfIn {s : Schema} {place : List String} {v : Json} {w : Violation}
    (inside : w ∈ s.violations switches place v) : Finds switches s place v w := by
  rw [violationsEq] at inside
  simp only [List.mem_append, List.mem_map, Option.mem_toList] at inside
  rcases inside with (((((((⟨b, own, rfl⟩ | ⟨b, own, rfl⟩) | items) | ⟨b, own, rfl⟩) |
    ⟨b, own, rfl⟩) | ⟨b, own, rfl⟩) | below) | ⟨name, absent, rfl⟩) | kind
  · exact .keyword (by simp [Constraints.breaches, own])
  · exact .format own
  · exact .item items
  · exact .keyword (by simp [Constraints.breaches, own])
  · exact .keyword (by simp [Constraints.breaches, own])
  · exact .keyword (by simp [Constraints.breaches, own])
  · obtain ⟨name, child, x, declared, present, deeper⟩ := inPropertyViolations.mp below
    exact .property declared present deeper
  · exact .missing absent
  · split at kind
    · cases kind
    · rename_i refused
      rw [List.mem_singleton.mp kind]
      exact .kind (by simpa using refused)

theorem inOfFinds {s : Schema} {place : List String} {v : Json} {w : Violation}
    (finds : Finds switches s place v w) : w ∈ s.violations switches place v := by
  rw [violationsEq]
  cases finds with
  | keyword breach =>
    simp only [Constraints.breaches, List.mem_append, Option.mem_toList] at breach
    rcases breach with ((own | own) | own) | own <;> simp [own]
  | format breach => simp [breach]
  | item inside => simp [inside]
  | property declared present inside =>
    have below := inPropertyViolations.mpr ⟨_, _, _, declared, present, inside⟩
    simp [below]
  | missing absent => simp [absent]
  | kind refused => simp [refused]

theorem overlayViolations {s : Schema} {place : List String} {v : Json} {keep : Violation → Bool}
    (clean : (s.violations switches place v).filter keep = []) (upper : Constraints) :
    (({ s with constraints := s.constraints.overlay upper } : Schema).violations
      switches place v).filter keep =
      ((upper.breaches v).map (Violation.mk place v)).filter keep := by
  rw [violationsEq] at clean ⊢
  simp only [List.filter_append, List.append_eq_nil_iff, and_assoc] at clean
  obtain ⟨unmet, format, items, above, below, met, properties, missing, kind⟩ := clean
  have part : ∀ {upper lower both : List Breach}, Constraints.Supersedes upper lower both →
      (lower.map (Violation.mk place v)).filter keep = [] →
      (both.map (Violation.mk place v)).filter keep =
        (upper.map (Violation.mk place v)).filter keep := by
    rintro upper lower both (rfl | ⟨rfl, rfl⟩) none
    · rfl
    · exact none
  simp only [List.filter_append, Constraints.breaches, List.map_append, format, items, properties,
    missing, kind, part (Constraints.unmetOverlay _ _ _) unmet,
    part (Constraints.aboveOverlay _ _ _) above, part (Constraints.belowOverlay _ _ _) below,
    part (Constraints.metOverlay _ _ _) met, List.append_nil]

/-- A rule laid along a path to a value adds what its keywords find there, no more. -/
theorem imposeViolations {r : Rule} {s leaf : Schema} {path place : List String} {v x : Json}
    {keep : Violation → Bool} (ordered : s.Ordered) (declared : s.at? path = some leaf)
    (present : v.member? path = some x)
    (clean : (s.violations switches place v).filter keep = []) :
    ((impose r s none path).violations switches place v).filter keep =
      (((r.keywords leaf.kind).breaches x).map (Violation.mk (place ++ path) x)).filter keep := by
  induction path generalizing s place v with
  | nil =>
    cases declared
    cases present
    rw [List.append_nil]
    exact overlayViolations clean _
  | cons name rest ih =>
    rw [atCons] at declared
    rw [Json.memberCons] at present
    obtain ⟨child, own, below⟩ := Option.bind_eq_some_iff.mp declared
    obtain ⟨w, found, inside⟩ := Option.bind_eq_some_iff.mp present
    rw [violationsEq] at clean
    simp only [List.filter_append, List.append_eq_nil_iff, and_assoc] at clean
    obtain ⟨unmet, format, items, above, beneath, met, properties, missing, kind⟩ := clean
    -- The child keeps its place among the properties, so the violations around it stay.
    obtain ⟨before, after, split, put⟩ := Keyed.insertInPlace ordered.keys own
    rw [propertyViolationsEq, split] at properties
    simp only [List.flatMap_append, List.flatMap_cons, List.filter_append,
      List.append_eq_nil_iff, found, Option.toList_some, List.flatMap_nil,
      List.append_nil] at properties
    obtain ⟨first, here, last⟩ := properties
    have deeper := ih (ordered.child own) below inside here
    have seeded := childOrOwn own none (bare (newKind r rest))
    have missing : ((missingNames (addName s.required name) v).map fun name =>
        (⟨place, v, .missing name⟩ : Violation)).filter keep = [] := by
      have there : missingNames (addName s.required name) v = missingNames s.required v := by
        unfold addName
        split
        · rfl
        · cases v with
          | object members =>
            have : Keyed.get? members name = some w := found
            simp [missingNames, this]
          | null | bool _ | number _ | string _ | array _ => rfl
      rw [there]
      exact missing
    rw [violationsEq, impose, seeded]
    simp only [withChild, require, put, propertyViolationsEq, List.flatMap_append,
      List.flatMap_cons, List.filter_append, found, Option.toList_some, List.flatMap_nil,
      List.append_nil, unmet, format, items, above, beneath, met, first, last, missing, kind,
      Option.bind_none, deeper, List.nil_append, List.append_assoc, List.singleton_append]

theorem violationsAt {s node : Schema} {path place : List String} {v x : Json} {w : Violation}
    (declared : s.at? path = some node) (present : v.member? path = some x)
    (inside : w ∈ node.violations switches (place ++ path) x) :
    w ∈ s.violations switches place v := by
  induction path generalizing s place v with
  | nil =>
    cases declared
    cases present
    rwa [List.append_nil] at inside
  | cons name rest ih =>
    rw [atCons] at declared
    rw [Json.memberCons] at present
    obtain ⟨child, own, below⟩ := Option.bind_eq_some_iff.mp declared
    obtain ⟨y, found, reached⟩ := Option.bind_eq_some_iff.mp present
    have deeper := ih below reached (List.append_cons place name rest ▸ inside)
    exact inOfFinds (.property (Keyed.memOfGet own) found deeper)

/-- One schema covers another when it keeps every node of it, and its keywords if it has any. -/
def Covers (lower upper : Schema) : Prop :=
  ∀ place node, lower.at? place = some node → ∃ next, upper.at? place = some next ∧
    Retains node next ∧ (node.constraints = .empty ∨ next.constraints = node.constraints)

theorem Covers.child {lower upper child : Schema} {name : String} (covers : Covers lower upper)
    (found : lower.property? name = some child) :
    ∃ next, upper.property? name = some next ∧ Covers child next := by
  obtain ⟨next, reached, _⟩ := covers [name] child (by simp [atCons, found])
  have there : upper.property? name = some next := by
    simpa [atCons] using reached
  refine ⟨next, there, fun place node below => ?_⟩
  simpa [atCons, found, there] using covers (name :: place) node (by simp [atCons, found, below])

theorem coveredViolations {lower upper : Schema} (ordered : lower.Ordered)
    (covers : Covers lower upper) {place : List String} {v : Json} {w : Violation}
    (inside : w ∈ lower.violations switches place v) :
    w ∈ upper.violations switches place v := by
  induction lower using treeInduction generalizing upper place v with
  | node lower properties _ =>
    obtain ⟨_, ⟨⟩, retains, keywords⟩ := covers [] lower rfl
    cases findsOfIn inside with
    | keyword breach =>
      rcases keywords with none | kept
      · rw [none, Constraints.breachesEmpty] at breach
        contradiction
      · exact inOfFinds (.keyword (kept ▸ breach))
    | format breach => exact inOfFinds (.format (retains.format ▸ breach))
    | item items => exact inOfFinds (.item (retains.items ▸ items))
    | @property name child x _ declared present deeper =>
      have own : lower.property? name = some child := Keyed.getOfMem ordered.keys declared
      obtain ⟨next, there, covered⟩ := covers.child own
      have deeper := properties (name, child) declared (ordered.child own) covered deeper
      exact inOfFinds (.property (Keyed.memOfGet there) present deeper)
    | @missing name absent =>
      refine inOfFinds (.missing ?_)
      cases v with
      | object members =>
        rw [missingNames, List.mem_filter] at absent ⊢
        exact ⟨retains.required name absent.1, absent.2⟩
      | null | bool _ | number _ | string _ | array _ => exact absent
    | kind refused =>
      rw [← retains.kind] at refused ⊢
      exact inOfFinds (.kind refused)

end Schema

end RuleSchema
