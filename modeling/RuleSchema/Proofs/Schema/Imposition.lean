import RuleSchema.Proofs.Schema.Tree
import RuleSchema.Schema.RuleTree
/-! Rules laid on a schema where it stands. A rule that compiles adds its keywords at the end
of its path and requires every name on the way; no other node of the schema changes. -/
namespace RuleSchema

namespace Rule

/-- The names the field leads along; none for a field that is no path. -/
@[irreducible]
def segments (r : Rule) : List String :=
  match r.path with
  | .ok path => path.segments
  | .error _ => []

/-- The keywords of the rule at a node of a kind; none if it has no schema. -/
def keywords (r : Rule) (kind : Kind) : Constraints :=
  match r.fragmentFor (some kind) with
  | .ok fragment => fragment
  | .error _ => .empty

/-- A rule has a schema when its field is a path and its operator suits its value. -/
structure Compiles (r : Rule) : Prop where
  path : ∃ path, r.path = .ok path
  operator : r.checkOperator = .ok ()

/-- Why a rule has no schema. The field is looked at before the operator. -/
def compileError? (r : Rule) : Option CompileError :=
  match r.path with
  | .error e => some ⟨r.id, .shape e⟩
  | .ok _ => match r.checkOperator with
    | .error e => some ⟨r.id, .operatorMismatch e⟩
    | .ok () => none

theorem compileErrorNone {r : Rule} : r.compileError? = none ↔ r.Compiles := by
  unfold compileError?
  cases parsed : r.path with
  | error e =>
    refine ⟨nofun, fun compiles => ?_⟩
    obtain ⟨path, other⟩ := compiles.path
    rw [parsed] at other
    cases other
  | ok path => cases checked : r.checkOperator with
    | error e =>
      refine ⟨nofun, fun compiles => ?_⟩
      have fits := compiles.operator
      rw [checked] at fits
      cases fits
    | ok => exact ⟨fun _ => ⟨⟨path, parsed⟩, checked⟩, fun _ => rfl⟩

theorem pathSegments {r : Rule} {path : FieldPath} (parsed : r.path = .ok path) :
    r.segments = path.segments := by
  rw [segments, parsed]

theorem Compiles.segmentsNonempty {r : Rule} (compiles : r.Compiles) : r.segments ≠ [] := by
  obtain ⟨path, parsed⟩ := compiles.path
  rw [pathSegments parsed]
  exact path.nonempty

theorem numberOfOperator {r : Rule} (fits : r.checkOperator = .ok ())
    (relational : r.condition.isRelational = true) : ∃ x, r.number? = some x := by
  unfold checkOperator at fits
  split at fits
  · contradiction
  · rename_i suits
    exact Option.ne_none_iff_exists'.mp (by simpa [relational] using suits)

theorem fragmentCompiles {r : Rule} (fits : r.checkOperator = .ok ()) (kind : Kind) :
    r.fragmentFor (some kind) = .ok (r.keywords kind) := by
  have found : r.condition.isRelational = true → ∃ x, r.number? = some x :=
    numberOfOperator fits
  unfold keywords
  cases chosen : r.condition <;> simp only [fragmentFor, chosen]
  all_goals
    obtain ⟨x, number⟩ := found (by rw [chosen]; rfl)
    simp only [bound, number]
    rfl

theorem fragmentFails {r : Rule} {e : OperatorMismatch} (misfit : r.checkOperator = .error e)
    (kind : Kind) : r.fragmentFor (some kind) = .error e := by
  unfold checkOperator at misfit
  split at misfit
  · rename_i both
    obtain ⟨relational, number⟩ : r.condition.isRelational = true ∧ r.number? = none := by
      simpa using both
    cases misfit
    cases chosen : r.condition <;> simp [chosen, Condition.isRelational] at relational <;>
      simp only [fragmentFor, chosen, bound, number] <;> rfl
  · contradiction

end Rule

namespace Schema

/-- The kind of a node no schema declares, by the names that are left below it. -/
def newKind (r : Rule) : List String → Kind
  | [] => leafKind r
  | _ :: _ => .object

/-- The schema with a rule laid on it along a path. Nodes it does not have are those of the
base, or new. -/
def impose (r : Rule) (s : Schema) (base : Option Schema) : List String → Schema
  | [] => { s with constraints := s.constraints.overlay (r.keywords s.kind) }
  | name :: rest =>
    let child := s.childOr base name (bare (newKind r rest))
    s.withChild name (impose r child (base.bind fun b => b.property? name) rest)

def imposeAll (s : Schema) (rules : List Rule) : Schema :=
  rules.foldl (fun s r => impose r s none r.segments) s

theorem imposeAllAppend (s : Schema) (first rest : List Rule) :
    s.imposeAll (first ++ rest) = (s.imposeAll first).imposeAll rest :=
  List.foldl_append

theorem imposeAllCons (s : Schema) (r : Rule) (rest : List Rule) :
    s.imposeAll (r :: rest) = (impose r s none r.segments).imposeAll rest := rfl

theorem childOrOwn {s child : Schema} {name : String} (own : s.property? name = some child)
    (base : Option Schema) (new : Schema) : s.childOr base name new = child := by
  simp only [childOr, own, Option.getD_some]

/-- What holds of new nodes and is kept when keywords are laid on a node, when a node gets a child
and when a node is left for a child, is kept when a rule is laid. -/
theorem imposeInvariant {holds : Schema → Prop} {r : Rule}
    (overlaid : ∀ {s : Schema}, holds s →
      holds { s with constraints := s.constraints.overlay (r.keywords s.kind) })
    (below : ∀ {s child : Schema} {name : String}, holds s → s.property? name = some child →
      holds child)
    (placed : ∀ {s child : Schema}, holds s → ∀ name, holds child → holds (s.withChild name child))
    (fresh : ∀ kind, holds (bare kind)) {s : Schema} {base : Option Schema} (here : holds s)
    (inBase : ∀ b, base = some b → holds b) (path : List String) :
    holds (impose r s base path) := by
  induction path generalizing s base with
  | nil => exact overlaid here
  | cons name rest ih =>
    have baseChild : ∀ b, (base.bind fun b => b.property? name) = some b → holds b := by
      intro b found
      obtain ⟨parent, present, declared⟩ := Option.bind_eq_some_iff.mp found
      exact below (inBase parent present) declared
    have child : holds (s.childOr base name (bare (newKind r rest))) := by
      unfold childOr
      cases own : s.property? name with
      | some child => exact below here own
      | none =>
        cases inherited : base.bind fun b => b.property? name with
        | some child => exact baseChild child inherited
        | none => exact fresh _
    exact placed here name (ih child baseChild)

theorem addAlongImposes {r : Rule} (fits : r.checkOperator = .ok ()) (s : Schema)
    (base : Option Schema) (name : String) (rest : List String) :
    addAlong r s base (name :: rest) = .ok (impose r s base (name :: rest)) := by
  induction rest generalizing s base name with
  | nil =>
    rw [addAlong]
    simp only [Rule.fragmentCompiles fits]
    rfl
  | cons next rest ih =>
    simp only [addAlong, ih]
    rfl

theorem addAlongFails {r : Rule} {e : OperatorMismatch} (misfit : r.checkOperator = .error e)
    (s : Schema) (base : Option Schema) (name : String) (rest : List String) :
    addAlong r s base (name :: rest) = .error e := by
  induction rest generalizing s base name with
  | nil =>
    rw [addAlong]
    simp only [Rule.fragmentFails misfit]
    rfl
  | cons next rest ih =>
    simp only [addAlong, ih]
    rfl

theorem addRuleImposes {r : Rule} (compiles : r.Compiles) (base s : Schema) :
    addRule base s r = .ok (impose r s (some base) r.segments) := by
  obtain ⟨path, parsed⟩ := compiles.path
  obtain ⟨name, rest, names⟩ := List.exists_cons_of_ne_nil path.nonempty
  simp only [addRule, parsed, Rule.pathSegments parsed, names,
    addAlongImposes compiles.operator]

theorem addRuleError {r : Rule} {e : CompileError} (misformed : r.compileError? = some e)
    (base s : Schema) : addRule base s r = .error e := by
  unfold Rule.compileError? at misformed
  unfold addRule
  cases parsed : r.path with
  | error broken =>
    rw [parsed] at misformed
    cases misformed
    rfl
  | ok path =>
    rw [parsed] at misformed
    cases checked : r.checkOperator with
    | ok => simp [checked] at misformed
    | error mismatch =>
      simp only [checked, Option.some.injEq] at misformed
      obtain ⟨name, rest, names⟩ := List.exists_cons_of_ne_nil path.nonempty
      simp only [names, addAlongFails checked, misformed]

/-- The error of a list of rules is that of its first rule without a schema, whatever the base. -/
theorem ofRulesError {base : Schema} {rules : List Rule} {e : CompileError} :
    ofRules base rules = .error e ↔ rules.findSome? Rule.compileError? = some e := by
  unfold ofRules
  generalize bare .object = start
  induction rules generalizing start with
  | nil => exact ⟨nofun, nofun⟩
  | cons r rest ih =>
    rw [List.foldlM_cons, List.findSome?_cons]
    cases failed : r.compileError? with
    | none =>
      rw [addRuleImposes (Rule.compileErrorNone.mp failed)]
      exact ih _
    | some first =>
      rw [addRuleError failed]
      exact ⟨fun same => congrArg some (Except.error.inj same),
        fun same => congrArg Except.error (Option.some.inj same)⟩

/-- A list of rules has a schema exactly when each of them has, whatever the base. -/
theorem ofRulesImposes (base : Schema) {rules : List Rule} (compile : ∀ r ∈ rules, r.Compiles) :
    ofRules base rules =
      .ok (rules.foldl (fun s r => impose r s (some base) r.segments) (bare .object)) := by
  unfold ofRules
  generalize bare .object = start
  induction rules generalizing start with
  | nil => rfl
  | cons r rest ih =>
    rw [List.foldlM_cons, addRuleImposes (compile r List.mem_cons_self)]
    exact ih (fun q inside => compile q (List.mem_cons_of_mem r inside)) _

theorem compilesOfRules {base upper : Schema} {rules : List Rule}
    (compiled : ofRules base rules = .ok upper) : ∀ r ∈ rules, r.Compiles := by
  cases failed : rules.findSome? Rule.compileError? with
  | some e =>
    rw [ofRulesError.mpr failed] at compiled
    cases compiled
  | none =>
    exact fun r inside => Rule.compileErrorNone.mp (List.findSome?_eq_none_iff.mp failed r inside)

/-- What holds of a new object and is kept when a rule that compiles is laid, seeded from the base,
holds of the schema of a list of rules. -/
theorem ofRulesInduction {motive : Schema → Prop} {base upper : Schema} {rules : List Rule}
    (compiled : ofRules base rules = .ok upper) (start : motive (bare .object))
    (laid : ∀ (s : Schema) (r : Rule), r.Compiles → motive s →
      motive (impose r s (some base) r.segments)) : motive upper := by
  have compile := compilesOfRules compiled
  rw [ofRulesImposes base compile] at compiled
  cases compiled
  revert start
  generalize bare .object = s
  induction rules generalizing s with
  | nil => exact fun here => here
  | cons r rest ih =>
    exact fun here => ih (fun q inside => compile q (List.mem_cons_of_mem r inside)) _
      (laid s r (compile r List.mem_cons_self) here)

theorem compilesOfCompiled {base : Schema} {rules : List Rule}
    (compiled : (ofRules base rules).isOk = true) : ∀ r ∈ rules, r.Compiles := by
  cases made : ofRules base rules with
  | error e =>
    rw [made] at compiled
    cases compiled
  | ok upper => exact compilesOfRules made

theorem propertyWithChild (s : Schema) (name other : String) (child : Schema) :
    (s.withChild name child).property? other =
      if name = other then some child else s.property? other :=
  Keyed.getInsert s.properties name other child

/-- What a node keeps when rules are laid on the tree it stands in. -/
structure Retains (old new : Schema) : Prop where
  kind : new.kind = old.kind
  items : new.items = old.items
  format : new.format = old.format
  required : ∀ name ∈ old.required, name ∈ new.required

theorem Retains.refl (s : Schema) : Retains s s := ⟨rfl, rfl, rfl, fun _ inside => inside⟩

theorem Retains.trans {s t u : Schema} (first : Retains s t) (next : Retains t u) :
    Retains s u :=
  ⟨next.kind.trans first.kind, next.items.trans first.items, next.format.trans first.format,
    fun name inside => next.required name (first.required name inside)⟩

theorem withChildRetains (s : Schema) (name : String) (child : Schema) :
    Retains s (s.withChild name child) :=
  ⟨rfl, rfl, rfl, fun _ inside => inAddName.mpr (.inl inside)⟩

theorem atImpose (r : Rule) {s node : Schema} (path : List String) {place : List String}
    (found : s.at? place = some node) :
    ∃ next, (impose r s none path).at? place = some next ∧ Retains node next ∧
      (place ≠ path → next.constraints = node.constraints) := by
  induction path generalizing s place with
  | nil =>
    cases place with
    | nil =>
      cases found
      exact ⟨_, rfl, ⟨rfl, rfl, rfl, fun _ inside => inside⟩, fun differs => absurd rfl differs⟩
    | cons first later => exact ⟨node, found, Retains.refl node, fun _ => rfl⟩
  | cons name rest ih =>
    cases place with
    | nil =>
      cases found
      exact ⟨_, rfl, withChildRetains _ name _, fun _ => rfl⟩
    | cons first later =>
      rw [atCons] at found
      obtain ⟨child, declared, below⟩ := Option.bind_eq_some_iff.mp found
      rw [impose, atCons, propertyWithChild]
      by_cases same : name = first
      · subst same
        have seeded := childOrOwn declared none (bare (newKind r rest))
        obtain ⟨next, reached, retained, kept⟩ := ih below
        refine ⟨next, ?_, retained, fun differs => kept fun same => differs (same ▸ rfl)⟩
        simpa [seeded] using reached
      · simp only [same, if_false, declared]
        exact ⟨node, below, Retains.refl node, fun _ => rfl⟩

theorem atImposeAll (rules : List Rule) {s node : Schema} {place : List String}
    (found : s.at? place = some node) :
    ∃ next, (s.imposeAll rules).at? place = some next ∧ Retains node next ∧
      ((∀ r ∈ rules, place ≠ r.segments) → next.constraints = node.constraints) := by
  induction rules generalizing s node with
  | nil => exact ⟨node, found, Retains.refl node, fun _ => rfl⟩
  | cons r rest ih =>
    obtain ⟨middle, reached, first, same⟩ := atImpose r r.segments found
    obtain ⟨next, last, then_, unchanged⟩ := ih reached
    rw [imposeAllCons]
    refine ⟨next, last, first.trans then_, fun elsewhere => ?_⟩
    rw [unchanged fun q inside => elsewhere q (List.mem_cons_of_mem r inside)]
    exact same (elsewhere r List.mem_cons_self)

theorem literalOrdered (r : Rule) (target : Option Kind) : (r.literalFor target).Ordered := by
  unfold Rule.literalFor
  generalize r.number? = number
  generalize Text.trim r.value = text
  cases target with
  | none => cases number <;> exact True.intro
  | some kind => cases kind with
    | string => exact True.intro
    | number | integer | object | array => cases number <;> exact True.intro
    | boolean =>
      by_cases yes : text = "true" <;> by_cases no : text = "false" <;>
        simp [yes, no, Json.Ordered]
    | null => by_cases yes : text = "null" <;> cases number <;> simp [yes, Json.Ordered]

theorem keywordsOrdered (r : Rule) (kind : Kind) :
    Json.OrderedElements ((r.keywords kind).allowed.getD []) ∧
      Json.OrderedElements ((r.keywords kind).forbidden.getD []) := by
  have literal := literalOrdered r (some kind)
  unfold Rule.keywords Rule.fragmentFor
  cases r.condition <;> cases r.bound <;>
    simp [Except.map, Constraints.empty, Json.OrderedElements, literal]

theorem overlayOrdered {s : Schema} (ordered : s.Ordered) (r : Rule) :
    ({ s with constraints := s.constraints.overlay (r.keywords s.kind) } : Schema).Ordered := by
  obtain ⟨keys, children, items, allowed, forbidden⟩ := orderedNode.mp ordered
  obtain ⟨newAllowed, newForbidden⟩ := keywordsOrdered r s.kind
  refine orderedNode.mpr ⟨keys, children, items, ?_, ?_⟩
  · show Json.OrderedElements (((r.keywords s.kind).allowed <|> s.constraints.allowed).getD [])
    cases chosen : (r.keywords s.kind).allowed with
    | none => exact allowed
    | some values => rw [chosen] at newAllowed; exact newAllowed
  · show Json.OrderedElements
      (((r.keywords s.kind).forbidden <|> s.constraints.forbidden).getD [])
    cases chosen : (r.keywords s.kind).forbidden with
    | none => exact forbidden
    | some values => rw [chosen] at newForbidden; exact newForbidden

theorem withChildOrdered {s child : Schema} (ordered : s.Ordered) (name : String)
    (below : child.Ordered) : (s.withChild name child).Ordered := by
  obtain ⟨keys, children, items, allowed, forbidden⟩ := orderedNode.mp ordered
  refine orderedNode.mpr ⟨Keyed.insertOrdered keys _ _, ?_, items, allowed, forbidden⟩
  intro p inside
  rcases Keyed.memInsert inside with new | old
  · rw [new]
    exact below
  · exact children p old

theorem imposeOrdered {r : Rule} {s : Schema} {base : Option Schema} (ordered : s.Ordered)
    (baseOrdered : ∀ b, base = some b → b.Ordered) (path : List String) :
    (impose r s base path).Ordered :=
  imposeInvariant (fun fine => overlayOrdered fine r) Ordered.child withChildOrdered bareOrdered
    ordered baseOrdered path

theorem imposeAllOrdered {s : Schema} (ordered : s.Ordered) (rules : List Rule) :
    (s.imposeAll rules).Ordered := by
  induction rules generalizing s with
  | nil => exact ordered
  | cons r rest ih =>
    rw [imposeAllCons]
    exact ih (imposeOrdered ordered (by simp) r.segments)

end Schema

end RuleSchema
