import RuleSchema.Proofs.Validation.Enforcement
/-! What a merged schema is at every place. A rule touches the nodes along its path and no other;
of a node on the way it changes the required names, and of the node at the end the keywords of
its own family. Nodes no schema declares are born with the first rule that leads to them. -/
namespace RuleSchema.Schema

/-- The name a path goes on with below a place it leads through. -/
def nextName? : List String → List String → Option String
  | [], name :: _ => some name
  | first :: place, name :: path => if first = name then nextName? place path else none
  | _, [] => none

theorem nextNameIff {place path : List String} {name : String} :
    nextName? place path = some name ↔ place ++ [name] <+: path := by
  induction place generalizing path with
  | nil => cases path <;> simp [nextName?, eq_comm]
  | cons first place ih =>
    cases path with
    | nil => simp [nextName?]
    | cons second path =>
      rw [nextName?, List.cons_append, List.cons_prefix_cons]
      split
      · rename_i same
        simp [ih, same]
      · rename_i differs
        simp [differs]

/-- The node at a place, without the nodes below it. -/
def look (s : Schema) (place : List String) : Option Schema :=
  (s.at? place).map fun node => { node with properties := [] }

def touch (r : Rule) (path place : List String) (s : Schema) : Schema :=
  { s with
    required := (nextName? place path).toList.foldl addName s.required
    constraints :=
      if place = path then s.constraints.overlay (r.keywords s.kind) else s.constraints }

/-- The node a rule makes at a place where there is none. -/
def born? (r : Rule) (path place : List String) : Option Schema :=
  if place <+: path then some (bare (newKind r (path.drop place.length))) else none

theorem touchElsewhere {r : Rule} {path place : List String} (elsewhere : ¬place <+: path) :
    touch r path place = id := by
  have noName : nextName? place path = none := by
    refine Option.eq_none_iff_forall_not_mem.mpr fun name next => elsewhere ?_
    exact (List.prefix_append place [name]).trans (nextNameIff.mp next)
  have different : place ≠ path := fun same => elsewhere (same ▸ List.prefix_rfl)
  funext s
  obtain ⟨kind, properties, required, items, format, constraints⟩ := s
  simp [touch, noName, different]

theorem madeElsewhere {r : Rule} {path place : List String} (elsewhere : ¬place <+: path)
    (old : Option Schema) : (old.or (born? r path place)).map (touch r path place) = old := by
  rw [touchElsewhere elsewhere, born?, if_neg elsewhere, Option.or_none, Option.map_id]
  rfl

theorem lookCons (s : Schema) (name : String) (rest : List String) :
    s.look (name :: rest) = (s.property? name).bind fun child => child.look rest := by
  rw [look, atCons, Option.map_bind]
  rfl

theorem lookBare (kind : Kind) (first : String) (later : List String) :
    (bare kind).look (first :: later) = none := lookCons _ _ _

theorem lookImpose (r : Rule) (s : Schema) (path place : List String) :
    (impose r s none path).look place =
      ((s.look place).or (born? r path place)).map (touch r path place) := by
  induction path generalizing s place with
  | nil =>
    cases place with
    | nil => rfl
    | cons first later =>
      have elsewhere : ¬first :: later <+: [] := by simp
      rw [madeElsewhere elsewhere]
      rfl
  | cons name rest ih =>
    cases place with
    | nil => rfl
    | cons first later =>
      rw [impose, lookCons, propertyWithChild, lookCons]
      by_cases same : name = first
      · subst same
        have sameTouch : touch r (name :: rest) (name :: later) = touch r rest later := by
          funext node
          simp [touch, nextName?]
        have sameBirth : born? r (name :: rest) (name :: later) = born? r rest later := by
          simp [born?, List.cons_prefix_cons]
        rw [if_pos rfl, Option.bind_some, Option.bind_none, ih, sameTouch, sameBirth]
        cases declared : s.property? name with
        | some child => rw [childOrOwn declared]; rfl
        | none =>
          have fresh : s.childOr none name (bare (newKind r rest)) = bare (newKind r rest) := by
            simp [childOr, declared]
          rw [fresh]
          cases later with
          | nil => simp [look, born?]; rfl
          | cons second deeper => rw [lookBare]; rfl
      · have elsewhere : ¬first :: later <+: name :: rest := by
          rw [List.cons_prefix_cons]
          exact fun both => same both.1.symm
        rw [if_neg same, madeElsewhere elsewhere]

def touchAll (rules : List Rule) (place : List String) (s : Schema) : Schema :=
  rules.foldl (fun s r => touch r r.segments place s) s

/-- The node the first rule that leads to a place makes there. -/
def firstBorn? (rules : List Rule) (place : List String) : Option Schema :=
  (rules.find? fun r => decide (place <+: r.segments)).map fun r =>
    bare (newKind r (r.segments.drop place.length))

theorem lookImposeAll (rules : List Rule) (s : Schema) (place : List String) :
    (s.imposeAll rules).look place =
      ((s.look place).or (firstBorn? rules place)).map (touchAll rules place) := by
  induction rules generalizing s with
  | nil =>
    rw [show touchAll [] place = id from rfl, Option.map_id]
    exact (Option.or_none).symm
  | cons r rest ih =>
    have first : firstBorn? (r :: rest) place =
        (born? r r.segments place).or (firstBorn? rest place) := by
      by_cases leads : place <+: r.segments <;> simp [firstBorn?, born?, leads]
    rw [imposeAllCons, ih, lookImpose, first]
    cases s.look place with
    | some node => rfl
    | none =>
      cases born : born? r r.segments place with
      | some node => rfl
      | none =>
        -- The rule does not lead here, so it leaves alone what a later rule makes.
        have elsewhere : ¬place <+: r.segments := by
          intro leads
          rw [born?, if_pos leads] at born
          cases born
        have skipped : touchAll (r :: rest) place = touchAll rest place := by
          funext node
          rw [touchAll, List.foldl_cons, touchElsewhere elsewhere]
          rfl
        rw [skipped]
        rfl

theorem foldAddName (names more : List String) :
    more.foldl addName names =
      names ++ (more.filter fun name => decide (name ∉ names)).eraseDups := by
  induction more generalizing names with
  | nil => simp
  | cons first rest ih =>
    rw [List.foldl_cons, ih, List.filter_cons]
    by_cases there : first ∈ names
    · simp [addName, there]
    · have added : addName names first = names ++ [first] := by simp [addName, there]
      have later : (rest.filter fun name => decide (name ∉ names ++ [first])) =
          (rest.filter fun name => decide (name ∉ names)).filter fun name => !name == first := by
        rw [List.filter_filter]
        refine List.filter_congr fun name _ => ?_
        by_cases same : name = first <;> simp [same]
      rw [added, later, if_pos (by simpa using there), List.eraseDups_cons, List.append_assoc]
      rfl

/-- The names that rules require below a place, in the order of the rules. -/
def nextNames (rules : List Rule) (place : List String) : List String :=
  rules.filterMap fun r => nextName? place r.segments

/-- The last rule on a place that writes the keywords of a family. -/
def lastWriter? (rules : List Rule) (place : List String) (family : Family) : Option Rule :=
  (rules.filter fun r => r.segments = place ∧ r.condition.family = family).getLast?

structure Imposed (rules : List Rule) (place : List String) (old new : Schema) : Prop where
  kind : new.kind = old.kind
  items : new.items = old.items
  format : new.format = old.format
  required : new.required = old.required ++
    ((nextNames rules place).filter fun name => decide (name ∉ old.required)).eraseDups
  /-- The keywords of a family are those of the last rule that writes them, at a node of this
  kind, or as they were. -/
  constraints : ∀ family, new.constraints.Agree
    (((lastWriter? rules place family).map fun r => r.keywords old.kind).getD old.constraints)
    family

theorem Imposed.sameConstraints {rules : List Rule} {place : List String} {old new : Schema}
    (imposed : Imposed rules place old new) (elsewhere : ∀ r ∈ rules, r.segments ≠ place) :
    new.constraints = old.constraints := by
  refine Constraints.agreeExt fun family => ?_
  have none : lastWriter? rules place family = none := by
    rw [lastWriter?, List.getLast?_eq_none_iff, List.filter_eq_nil_iff]
    intro r inside
    simp [elsewhere r inside]
  have agree := imposed.constraints family
  rw [none] at agree
  exact agree

/-- The nodes below play no part in what rules make of a node. -/
theorem Imposed.ofLook {rules : List Rule} {place : List String} {old new : Schema}
    (imposed : Imposed rules place { old with properties := [] } { new with properties := [] }) :
    Imposed rules place old new :=
  ⟨imposed.kind, imposed.items, imposed.format, imposed.required, imposed.constraints⟩

theorem lastWriterCons (r : Rule) (rest : List Rule) (place : List String) (family : Family) :
    lastWriter? (r :: rest) place family = (lastWriter? rest place family).or
      (if r.segments = place ∧ r.condition.family = family then some r else none) := by
  unfold lastWriter?
  rw [List.filter_cons]
  by_cases own : r.segments = place ∧ r.condition.family = family
  · simp only [own, decide_true, if_true, and_self, List.getLast?_cons]
    cases (rest.filter _).getLast? <;> rfl
  · simp only [own, decide_false, Bool.false_eq_true, if_false, Option.or_none]

theorem touchAgrees {r : Rule} (fits : r.checkOperator = .ok ()) (place : List String)
    (s : Schema) (family : Family) :
    (touch r r.segments place s).constraints.Agree
      (if r.segments = place ∧ r.condition.family = family then r.keywords s.kind
        else s.constraints) family := by
  by_cases here : place = r.segments
  · rw [touch, if_pos here]
    by_cases own : r.condition.family = family
    · rw [if_pos ⟨here.symm, own⟩, ← own]
      exact Constraints.overlayAgrees fits s.constraints s.kind
    · rw [if_neg fun both => own both.2]
      exact Constraints.overlayKeeps (Constraints.keywordsElsewhere own s.kind) s.constraints
  · rw [touch, if_neg here, if_neg fun both => here both.1.symm]
    exact .refl _ family

theorem touchAllAgrees {rules : List Rule} (fit : ∀ r ∈ rules, r.checkOperator = .ok ())
    (place : List String) (s : Schema) (family : Family) :
    (touchAll rules place s).constraints.Agree
      (((lastWriter? rules place family).map fun r => r.keywords s.kind).getD s.constraints)
      family := by
  induction rules generalizing s with
  | nil => exact .refl s.constraints family
  | cons r rest ih =>
    have later := ih (fun q inside => fit q (List.mem_cons_of_mem r inside))
      (touch r r.segments place s)
    have here := touchAgrees (fit r List.mem_cons_self) place s family
    rw [lastWriterCons]
    cases last : lastWriter? rest place family with
    | some q =>
      rw [last] at later
      exact later
    | none =>
      rw [last] at later
      refine later.trans ?_
      split at here
      · rename_i own
        rw [if_pos own]
        exact here
      · rename_i other
        rw [if_neg other]
        exact here

theorem touchAllRequires (rules : List Rule) (place : List String) (s : Schema) :
    (touchAll rules place s).required = (nextNames rules place).foldl addName s.required := by
  induction rules generalizing s with
  | nil => rfl
  | cons r rest ih =>
    rw [touchAll, List.foldl_cons, ← touchAll, ih, nextNames, nextNames, List.filterMap_cons]
    cases next : nextName? place r.segments <;> simp [touch, next]

theorem touchAllKeeps (rules : List Rule) (place : List String) (s : Schema) :
    (touchAll rules place s).kind = s.kind ∧ (touchAll rules place s).items = s.items ∧
      (touchAll rules place s).format = s.format := by
  induction rules generalizing s with
  | nil => exact ⟨rfl, rfl, rfl⟩
  | cons r rest ih => exact ih (touch r r.segments place s)

theorem touchAllImposes {rules : List Rule} (fit : ∀ r ∈ rules, r.checkOperator = .ok ())
    (place : List String) (s : Schema) : Imposed rules place s (touchAll rules place s) := by
  obtain ⟨kind, items, format⟩ := touchAllKeeps rules place s
  refine ⟨kind, items, format, ?_, touchAllAgrees fit place s⟩
  rw [touchAllRequires, foldAddName]

theorem newKindAt {r : Rule} {path place : List String} (leads : place <+: path) :
    newKind r (path.drop place.length) = if place = path then leafKind r else .object := by
  obtain ⟨rest, rfl⟩ := leads
  cases rest with
  | nil => simp [newKind]
  | cons name rest => simp [newKind]

theorem lookSome (s : Schema) (place : List String) :
    (s.look place).isSome = (s.at? place).isSome :=
  Option.isSome_map

/-- A merged schema at every place: where there is a node, and what it is. It is the node of the
base, or a new one, with what the rules make of it; no keyword of a node is new or changed where
no rule is about the place itself. -/
theorem mergedFrame {base : Schema} {rules : List Rule} (ordered : base.Ordered)
    (compiled : (ofRules base rules).isOk = true) (place : List String) :
    (((base.withRules rules).at? place).isSome = true ↔
      (base.at? place).isSome = true ∨ ∃ r ∈ rules, place <+: r.segments) ∧
    ∀ node, (base.withRules rules).at? place = some node →
      (∀ old, base.at? place = some old → Imposed rules place old node ∧
        ((∀ r ∈ rules, r.segments ≠ place) → node.constraints = old.constraints)) ∧
      (base.at? place = none →
        (∃ first, rules.find? (fun r => decide (place <+: r.segments)) = some first ∧
          Imposed rules place
            (bare (if place = first.segments then leafKind first else .object)) node) ∧
        ((∀ r ∈ rules, r.segments ≠ place) → node.constraints = .empty)) := by
  have compile := compilesOfCompiled compiled
  have fit : ∀ r ∈ rules, r.checkOperator = .ok () := fun r inside => (compile r inside).operator
  have seen := lookImposeAll rules base place
  rw [← withRulesInPlace ordered compile] at seen
  refine ⟨?_, fun node found => ?_⟩
  · rw [← lookSome, ← lookSome, seen, Option.isSome_map, Option.isSome_or, Bool.or_eq_true]
    simp [firstBorn?]
  have imposed : ∀ old, (base.look place).or (firstBorn? rules place) = some old →
      Imposed rules place old { node with properties := [] } := by
    intro old origin
    rw [origin, look, found] at seen
    rw [show { node with properties := [] } = touchAll rules place old from Option.some.inj seen]
    exact touchAllImposes fit place old
  constructor
  · intro old declared
    have i : Imposed rules place old node := by
      refine (imposed { old with properties := [] } ?_).ofLook
      rw [look, declared]
      rfl
    exact ⟨i, i.sameConstraints⟩
  · intro undeclared
    have fresh : base.look place = none := by rw [look, undeclared]; rfl
    rw [fresh, Option.none_or] at imposed
    cases leading : rules.find? (fun r => decide (place <+: r.segments)) with
    | none =>
      rw [fresh, firstBorn?, leading, look, found] at seen
      cases seen
    | some first =>
      have leads : place <+: first.segments := by simpa using List.find?_some leading
      have i : Imposed rules place
          (bare (if place = first.segments then leafKind first else .object)) node := by
        refine (imposed _ ?_).ofLook
        rw [firstBorn?, leading, Option.map_some, newKindAt leads]
        rfl
      exact ⟨⟨first, rfl, i⟩, i.sameConstraints⟩

open Sample in
theorem mergedFrameTaxed : ∃ node,
    ((infer .standard invoice).withRules (rules ++ [taxRule, taxLimit])).at? ["totals", "tax"] =
        some node ∧
      Imposed (rules ++ [taxRule, taxLimit]) ["totals", "tax"] (bare .object) node ∧
      node.constraints = .empty := by
  have compiled :
      (ofRules (infer .standard invoice) (rules ++ [taxRule, taxLimit])).isOk = true := by
    decide +kernel
  have frame := mergedFrame (inferOrdered .standard invoiceOrdered) compiled ["totals", "tax"]
  have leads : ["totals", "tax"] <+: taxRule.segments := by decide +kernel
  obtain ⟨node, found⟩ := Option.isSome_iff_exists.mp
    (frame.1.mpr (.inr ⟨taxRule, by simp, leads⟩))
  obtain ⟨⟨first, leading, imposed⟩, none⟩ := (frame.2 node found).2 (by decide +kernel)
  have tax : first = taxRule := by
    refine Option.some.inj (leading.symm.trans ?_)
    decide +kernel
  rw [tax, if_neg (by decide +kernel)] at imposed
  exact ⟨node, found, imposed, none (by decide +kernel)⟩

end RuleSchema.Schema
