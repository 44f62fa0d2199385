import RuleSchema.Proofs.Validation.Acceptance
/-! What the merged schema enforces without the rules. The last rule of a path that writes a
keyword finds it kept there, and all names on the way required, so a document in which the
schema finds nothing has the field and the rule holds. -/
namespace RuleSchema

/-- The keywords a rule writes: one of the two bounds, or one of the two lists of values. -/
inductive Family where
  | minimum
  | maximum
  | allowed
  | forbidden
  deriving DecidableEq, Repr

def Condition.family : Condition → Family
  | greater | greaterOrEqual => .minimum
  | less | lessOrEqual => .maximum
  | equal => .allowed
  | notEqual => .forbidden

theorem Kind.numberOfNumeric {kind : Kind} {v : Json} (numeric : kind.isNumeric = true)
    (admitted : kind.admits v = true) : ∃ n, v = .number n := by
  cases v with
  | number n => exact ⟨n, rfl⟩
  | null | bool _ | string _ | array _ | object _ =>
    cases kind <;> simp [isNumeric, admits] at numeric admitted

namespace Constraints

/-- The two have the same keywords of a family. -/
def Agree (c d : Constraints) : Family → Prop
  | .minimum => c.minimum = d.minimum ∧ c.exclusiveMinimum = d.exclusiveMinimum
  | .maximum => c.maximum = d.maximum ∧ c.exclusiveMaximum = d.exclusiveMaximum
  | .allowed => c.allowed = d.allowed
  | .forbidden => c.forbidden = d.forbidden

theorem overlayAgrees {r : Rule} (fits : r.checkOperator = .ok ()) (c : Constraints)
    (kind : Kind) :
    (c.overlay (r.keywords kind)).Agree (r.keywords kind) r.condition.family := by
  have found : r.condition.isRelational = true → ∃ x, r.number? = some x :=
    Rule.numberOfOperator fits
  unfold Rule.keywords Rule.fragmentFor Rule.bound
  cases chosen : r.condition with
  | equal | notEqual => rfl
  | greater | greaterOrEqual | less | lessOrEqual =>
    obtain ⟨x, number⟩ := found (by rw [chosen]; rfl)
    rw [number]
    exact ⟨rfl, rfl⟩

theorem keywordsElsewhere {r : Rule} {family : Family} (differs : r.condition.family ≠ family)
    (kind : Kind) : (r.keywords kind).Agree empty family := by
  unfold Rule.keywords Rule.fragmentFor
  cases chosen : r.condition <;> cases r.bound <;> cases family <;>
    simp_all [Agree, empty, Except.map, Condition.family]

theorem overlayKeeps {upper : Constraints} {family : Family} (absent : upper.Agree empty family)
    (c : Constraints) : (c.overlay upper).Agree c family := by
  cases family <;> simp_all [Agree, overlay, empty]

theorem Agree.refl (c : Constraints) (family : Family) : c.Agree c family := by
  cases family with
  | minimum | maximum => exact ⟨rfl, rfl⟩
  | allowed | forbidden => exact Eq.refl _

theorem Agree.trans {c d e : Constraints} {family : Family} (first : c.Agree d family)
    (next : d.Agree e family) : c.Agree e family := by
  cases family with
  | minimum | maximum => exact ⟨first.1.trans next.1, first.2.trans next.2⟩
  | allowed | forbidden => exact Eq.trans first next

theorem agreeExt {c d : Constraints} (agree : ∀ family, c.Agree d family) : c = d := by
  obtain ⟨minimum, exclusiveMinimum⟩ := agree .minimum
  obtain ⟨maximum, exclusiveMaximum⟩ := agree .maximum
  have allowed : c.allowed = d.allowed := agree .allowed
  have forbidden : c.forbidden = d.forbidden := agree .forbidden
  cases c
  cases d
  simp_all

def found (c : Constraints) (v : Json) : Family → List Breach
  | .minimum => (belowMinimum? c v).toList
  | .maximum => (aboveMaximum? c v).toList
  | .allowed => c.unmet v
  | .forbidden => c.met v

theorem breachesNone {c : Constraints} {v : Json} :
    c.breaches v = [] ↔ ∀ family, c.found v family = [] := by
  simp only [breaches, List.append_eq_nil_iff]
  constructor
  · rintro ⟨⟨⟨unmet, above⟩, below⟩, met⟩ (_ | _ | _ | _)
    · exact below
    · exact above
    · exact unmet
    · exact met
  · intro none
    exact ⟨⟨⟨none .allowed, none .maximum⟩, none .minimum⟩, none .forbidden⟩

theorem Agree.found {c d : Constraints} {family : Family} (agree : c.Agree d family)
    (v : Json) : c.found v family = d.found v family := by
  cases family with
  | minimum | maximum =>
    obtain ⟨limit, flag⟩ := agree
    cases v <;> simp [Constraints.found, belowMinimum?, aboveMaximum?, limit, flag]
  | allowed | forbidden =>
    have values : _ = _ := agree
    simp [Constraints.found, unmet, met, values]

theorem Agree.breaches {r : Rule} {kind : Kind} {c : Constraints} {v : Json}
    (agree : c.Agree (r.keywords kind) r.condition.family) (clean : c.breaches v = []) :
    (r.keywords kind).breaches v = [] := by
  rw [breachesNone] at clean ⊢
  intro family
  by_cases own : r.condition.family = family
  · subst own
    exact (agree.found v).symm.trans (clean _)
  · rw [(keywordsElsewhere own kind).found v]
    exact breachesNone.mp (breachesEmpty v) family

end Constraints

namespace Sample

def taxRule : Rule := rule "t" "totals.tax.rate" .greaterOrEqual "0.5"

def taxLimit : Rule := rule "u" "totals.tax.rate" .less "10"

def taxed : Json :=
  .object [("status", .string "paid"), ("totals", .object
    [("due", amount 500), ("paid", amount 250), ("tax", .object [("rate", amount 7)])])]

end Sample

namespace Schema

/-- All names on the way are required and declared, and the node they lead to has the keywords
of the rule. -/
def Enforces (r : Rule) (s : Schema) : List String → Prop
  | [] => s.constraints.Agree (r.keywords s.kind) r.condition.family
  | name :: rest => name ∈ s.required ∧ ∃ child, s.property? name = some child ∧
    Enforces r child rest

theorem imposeEnforces {r : Rule} (fits : r.checkOperator = .ok ()) (s : Schema)
    (base : Option Schema) (path : List String) : (impose r s base path).Enforces r path := by
  induction path generalizing s base with
  | nil => exact Constraints.overlayAgrees fits s.constraints s.kind
  | cons name rest ih =>
    refine ⟨inAddName.mpr (.inr rfl), ?_⟩
    rw [impose, propertyWithChild, if_pos rfl]
    exact ⟨_, rfl, ih _ _⟩

theorem imposeKeeps {r q : Rule} {s : Schema} {path other : List String}
    (enforced : s.Enforces r path)
    (differs : other = path → q.condition.family ≠ r.condition.family) :
    (impose q s none other).Enforces r path := by
  induction path generalizing s other with
  | nil =>
    cases other with
    | nil =>
      have absent := Constraints.keywordsElsewhere (differs rfl) s.kind
      exact (Constraints.overlayKeeps absent s.constraints).trans enforced
    | cons name rest => exact enforced
  | cons name rest ih =>
    cases other with
    | nil => exact enforced
    | cons first later =>
      obtain ⟨required, child, declared, below⟩ := enforced
      refine ⟨inAddName.mpr (.inl required), ?_⟩
      rw [impose, propertyWithChild]
      by_cases same : first = name
      · subst same
        rw [if_pos rfl]
        rw [childOrOwn declared]
        exact ⟨_, rfl, ih below fun alike => differs (alike ▸ rfl)⟩
      · rw [if_neg same]
        exact ⟨child, declared, below⟩

theorem imposeAllKeeps {r : Rule} {s : Schema} {path : List String} {rules : List Rule}
    (enforced : s.Enforces r path)
    (last : ∀ q ∈ rules, q.segments = path → q.condition.family ≠ r.condition.family) :
    (s.imposeAll rules).Enforces r path := by
  induction rules generalizing s with
  | nil => exact enforced
  | cons q rest ih =>
    rw [imposeAllCons]
    exact ih (imposeKeeps enforced (last q List.mem_cons_self))
      fun p inside => last p (List.mem_cons_of_mem q inside)

/-- The last rule of its path and family is enforced, whatever the base and the other rules. -/
theorem lastEnforced {r : Rule} (compiles : r.Compiles) (base : Schema)
    (before : List Rule) {after : List Rule}
    (last : ∀ q ∈ after, q.segments = r.segments →
      q.condition.family ≠ r.condition.family) :
    (base.imposeAll (before ++ r :: after)).Enforces r r.segments := by
  rw [imposeAllAppend, imposeAllCons]
  exact imposeAllKeeps (imposeEnforces compiles.operator _ none r.segments) last

variable {switches : FormatSwitches}

theorem noneOfClean {s : Schema} {place : List String} {v : Json} {w : Violation}
    (clean : s.violations switches place v = []) (inside : w ∈ s.violations switches place v) :
    False := by
  rw [clean] at inside
  cases inside

theorem breachesOfClean {s : Schema} {place : List String} {v : Json}
    (clean : s.violations switches place v = []) : s.constraints.breaches v = [] :=
  List.eq_nil_iff_forall_not_mem.mpr fun _ inside =>
    noneOfClean clean (inOfFinds (.keyword inside))

theorem admitsOfClean {s : Schema} {place : List String} {v : Json}
    (clean : s.violations switches place v = []) : s.kind.admits v = true := by
  rw [← Bool.not_eq_false]
  intro refused
  exact noneOfClean clean (inOfFinds (.kind refused))

theorem enforcedValue {r : Rule} {s : Schema} {path place : List String} {v : Json}
    (enforced : s.Enforces r path)
    (objects : ∀ n < path.length, ∀ node ∈ s.at? (path.take n), node.kind = .object)
    (clean : s.violations switches place v = []) :
    ∃ leaf x, s.at? path = some leaf ∧ v.member? path = some x ∧
      leaf.kind.admits x = true ∧ (r.keywords leaf.kind).breaches x = [] := by
  induction path generalizing s place v with
  | nil => exact ⟨s, v, rfl, rfl, admitsOfClean clean, enforced.breaches (breachesOfClean clean)⟩
  | cons name rest ih =>
    obtain ⟨required, child, declared, below⟩ := enforced
    have object : s.kind = .object := objects 0 (by simp) s rfl
    cases v with
    | null | bool _ | number _ | string _ | array _ =>
      have admitted := admitsOfClean clean
      rw [object] at admitted
      contradiction
    | object members =>
      cases present : Keyed.get? members name with
      | none =>
        have absent : name ∈ missingNames s.required (.object members) := by
          simp [missingNames, required, present]
        exact (noneOfClean clean (inOfFinds (.missing absent))).elim
      | some x =>
        have inner : child.violations switches (place ++ [name]) x = [] :=
          List.eq_nil_iff_forall_not_mem.mpr fun w inside =>
            noneOfClean clean (inOfFinds (.property (Keyed.memOfGet declared) present inside))
        obtain ⟨leaf, y, reached, there, fits, agrees⟩ := ih below (fun n short node found => by
          refine objects (n + 1) (by simpa using short) node ?_
          simpa [atCons, declared] using found) inner
        refine ⟨leaf, y, ?_, ?_, fits, agrees⟩
        · rw [atCons, declared, Option.bind_some, reached]
        · rw [Json.memberCons, Json.get?, present, Option.bind_some, there]

/-- A document in which the merged schema finds nothing has the field of every rule that is the
last one of its path and family, and the rule holds there. -/
theorem mergedEnforces {base : Schema} {rules before after : List Rule} {r : Rule}
    {document : Json} (ordered : base.Ordered) (compiled : (ofRules base rules).isOk = true)
    (split : rules = before ++ r :: after)
    (last : ∀ q ∈ after, q.segments = r.segments → q.condition.family ≠ r.condition.family)
    (objects : ∀ n < r.segments.length,
      ∀ node ∈ (base.withRules rules).at? (r.segments.take n), node.kind = .object)
    (numeric : r.condition.isRelational = true →
      ∀ leaf ∈ (base.withRules rules).at? r.segments, leaf.kind.isNumeric = true)
    (clean : (base.withRules rules).violations switches [] document = [])
    (exact : ∀ v ∈ document.member? r.segments, v.IsExact) :
    r.issue? document = none ∧
      ∃ v, document.member? r.segments = some v ∧ r.holdsFor v = true := by
  have compile := compilesOfCompiled compiled
  have compiles : r.Compiles := compile r (by simp [split])
  have inPlace := withRulesInPlace ordered compile
  have enforced : (base.withRules rules).Enforces r r.segments := by
    rw [inPlace, split]
    exact lastEnforced compiles base before last
  obtain ⟨leaf, x, reached, present, admitted, agrees⟩ := enforcedValue enforced objects clean
  have holds : r.holdsFor x = true := by
    rcases (Rule.keywordsAgree compiles.operator admitted (exact x present)).mp agrees with
      holds | ⟨relational, other⟩
    · exact holds
    · obtain ⟨n, number⟩ := Kind.numberOfNumeric (numeric relational leaf reached) admitted
      exact absurd number (other n)
  obtain ⟨path, parsed⟩ := compiles.path
  refine ⟨Rule.issueNone.mpr ⟨path, x, parsed, ?_, holds⟩, x, present, holds⟩
  rw [← Rule.pathSegments parsed]
  exact present

theorem mergedEnforcesTaxRate : Sample.taxRule.issue? Sample.taxed = none ∧
    ∃ v, Sample.taxed.member? Sample.taxRule.segments = some v ∧
      Sample.taxRule.holdsFor v = true :=
  @mergedEnforces Config.standard.formats (infer .standard Sample.invoice)
    (Sample.rules ++ [Sample.taxRule, Sample.taxLimit]) Sample.rules [Sample.taxLimit]
    Sample.taxRule Sample.taxed (inferOrdered .standard Sample.invoiceOrdered)
    (by decide +kernel) rfl (by decide +kernel) (by decide +kernel) (by decide +kernel)
    (by decide +kernel) (by decide +kernel)

end Schema

end RuleSchema
