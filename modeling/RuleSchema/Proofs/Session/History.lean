import RuleSchema.Proofs.Session.Runs
/-! Admission against one document does not depend on what was admitted before. Rules the
document has passed stay silent, so a candidate is tried as if it were the only rule, and the
order of the proposals does not matter. -/
namespace RuleSchema

namespace Engine
variable {config : Config} {document : Json} {rules : List Rule} {r : Rule}

theorem violationsAlone (ordered : document.Ordered)
    (accepts : Accepts (Schema.infer config document) rules config document)
    (compile : ∀ q ∈ rules, q.Compiles) (compiles : r.Compiles)
    (present : (document.member? r.segments).isSome = true) :
    (((Schema.infer config document).withRules (rules ++ [r])).violations
      config.formats [] document).filter (fun w => !w.isExempt config) =
    (((Schema.infer config document).withRules [r]).violations
      config.formats [] document).filter fun w => !w.isExempt config := by
  obtain ⟨x, found⟩ := Option.isSome_iff_exists.mp present
  have baseOrdered := Schema.inferOrdered config ordered
  generalize shown : Schema.infer config document = base at accepts baseOrdered ⊢
  have declared : base.at? r.segments = some (Schema.infer config x) := by
    rw [← shown, Schema.inferAt, found, Option.map_some]
  have passes := accepts.passes
  rw [Schema.withRulesInPlace baseOrdered compile] at passes
  have basePasses : base.Passes config document :=
    (Schema.imposeAllCovers fun q _ node declared =>
      Schema.inferAtFree config (shown ▸ declared)).passes baseOrdered passes
  have compileAll : ∀ q ∈ rules ++ [r], q.Compiles := by
    intro q inside
    rcases List.mem_append.mp inside with old | new
    · exact compile q old
    · rw [List.mem_singleton.mp new]
      exact compiles
  have aloneCompiles : ∀ q ∈ [r], q.Compiles := by simpa using compiles
  obtain ⟨next, reached, retains, _⟩ := Schema.atImposeAll rules declared
  rw [Schema.withRulesInPlace baseOrdered compileAll,
    Schema.withRulesInPlace baseOrdered aloneCompiles, Schema.imposeAllAppend]
  -- Both schemas count nothing before the candidate is laid on them, and it meets a node of the
  -- same kind in both, so it writes the same keywords there.
  have after := Schema.imposeViolations (r := r) (Schema.imposeAllOrdered baseOrdered rules)
    reached found (Schema.passesFilter.mp passes)
  have alone := Schema.imposeViolations (r := r) baseOrdered declared found
    (Schema.passesFilter.mp basePasses)
  rw [retains.kind] at after
  exact after.trans alone.symm

theorem tryRuleAlone (ordered : document.Ordered)
    (accepts : Accepts (Schema.infer config document) rules config document)
    (compile : ∀ q ∈ rules, q.Compiles) (compiles : r.Compiles)
    (present : (document.member? r.segments).isSome = true) :
    tryRule config document (Schema.infer config document) rules r =
      tryRule config document (Schema.infer config document) [] r := by
  have schemaIssues := violationsAlone ordered accepts compile compiles present
  have ruleIssues : Rule.issues (rules ++ [r]) document = Rule.issues [r] document := by
    have hold := accepts.hold
    unfold Rule.issues at hold ⊢
    rw [List.filterMap_append, hold, List.nil_append]
  have sound := Schema.inferSound config document
  have same :
      Engine.validate ⟨_, rules ++ [r], config, Schema.withRulesSound sound (rules ++ [r])⟩
        document =
      Engine.validate ⟨_, [r], config, Schema.withRulesSound sound [r]⟩ document := by
    simp only [validate, Engine.schemaIssues, violations, schemaIssues, ruleIssues]
  rw [tryRule, tryRule, List.nil_append, ofBaseSound sound, ofBaseSound sound]
  dsimp only
  rw [same]

end Engine

/-- The rule a proposal is admitted as by its document alone. -/
def Call.alone (config : Config) (c : Call) : Option Rule :=
  (admitRule config c.document (Schema.infer config c.document) [] c.fresh c.proposal).toOption

namespace Session
variable {config : Config} {document : Json}

/-- A session on what a document shows, whose rules the document has passed. -/
structure Settled (config : Config) (document : Json) (s : Session) : Prop where
  coherent : s.Coherent
  base : s.base = Schema.infer config document
  config : s.config = config
  accepts : s.rules = [] ∨ Engine.Accepts s.base s.rules s.config document

theorem sampleSettled (config : Config) (document : Json) :
    (ofSample document config).Settled config document :=
  ⟨newCoherent _ config, rfl, rfl, .inl rfl⟩

theorem extendSettled {s : Session} (settled : s.Settled config document) {fresh : String}
    {p : Proposal} {r : Rule} (admitted : s.addRule fresh p document = .ok r) :
    (s.extend r).Settled config document :=
  have extended := extendCoherent settled.coherent admitted
  ⟨extended.1, settled.base, settled.config, .inr extended.2⟩

theorem runSettled {σ : Type} {store : Store (StateM σ)} (faithful : store.Faithful)
    {s : Session} (settled : s.Settled config document) {calls : List Call}
    (against : ∀ c ∈ calls, c.document = document) (state : σ) :
    (s.adoptAll store calls state).1.Settled config document := by
  refine adoptAllInduction (fun t c state inside reached => ?_) settled state
  rcases adoptEnds faithful t c state with ⟨e, after, ends⟩ | ⟨r, after, ends, admitted⟩
  · rw [ends]
    exact reached
  · rw [ends]
    rw [against c inside] at admitted
    exact extendSettled reached admitted

theorem admitRuleAlone (ordered : document.Ordered) {s : Session}
    (settled : s.Settled config document) (fresh : String) {p : Proposal} {id : String}
    (named : p.id = some id) (unused : id ∉ s.rules.map Rule.id) :
    admitRule config document (Schema.infer config document) s.rules fresh p =
      admitRule config document (Schema.infer config document) [] fresh p := by
  rcases settled.accepts with none | accepts
  · rw [none]
  rw [settled.base, settled.config] at accepts
  rw [admitRuleEq, admitRuleEq]
  cases made : p.toRule fresh with
  | error e => rfl
  | ok pair =>
    obtain ⟨r, path⟩ := pair
    obtain ⟨parsed, c, _, _, same⟩ := Proposal.toRuleOk.mp made
    have free : (s.rules.any fun q => q.id == r.id) = false := by
      rw [List.any_eq_false]
      intro q inside equal
      refine unused (List.mem_map.mpr ⟨q, inside, ?_⟩)
      rw [beq_iff_eq.mp equal, same, named, Option.getD_some]
    have own : r.path = .ok path := by
      rw [same]
      exact FieldPath.parseText parsed
    dsimp only
    cases fits : r.checkOperator with
    | error e => rfl
    | ok =>
      dsimp only
      rw [free, List.any_nil]
      cases missing : unresolved? config document path with
      | some e => rfl
      | none =>
        have present : (document.member? r.segments).isSome = true := by
          rw [Rule.pathSegments own]
          exact presentOfResolved missing
        exact Engine.tryRuleAlone ordered accepts
          (fun q inside => (settled.coherent.formed q inside).compiles) ⟨⟨path, own⟩, fits⟩ present

section
variable {σ : Type} {store : Store (StateM σ)}

theorem adoptReturned (returns : store.Returns) (s : Session) (c : Call) (state : σ) :
    (s.adopt store c.fresh c.proposal c.document state).1.2 =
      match s.addRule c.fresh c.proposal c.document with
      | .error _ => s
      | .ok r => s.extend r := by
  rw [adoptEq]
  cases s.addRule c.fresh c.proposal c.document with
  | error e => rfl
  | ok r =>
    have answer := returns r state
    dsimp only
    cases saving : store.saveRule r state with
    | mk result next =>
      rw [saving] at answer
      cases answer
      rfl

theorem runAlone (returns : store.Returns) (ordered : document.Ordered) {s : Session}
    (settled : s.Settled config document) {calls : List Call}
    (against : ∀ c ∈ calls, c.document = document)
    (named : ∀ c ∈ calls, c.proposal.id.isSome = true)
    (distinct : (calls.map fun c => c.proposal.id).Nodup)
    (unused : ∀ c ∈ calls, ∀ r ∈ s.rules, c.proposal.id ≠ some r.id) (state : σ) :
    (s.adoptAll store calls state).1.rules = s.rules ++ calls.filterMap (Call.alone config) := by
  induction calls generalizing s state with
  | nil => exact (List.append_nil s.rules).symm
  | cons c rest ih =>
    have sameDocument : c.document = document := against c List.mem_cons_self
    obtain ⟨id, own⟩ := Option.isSome_iff_exists.mp (named c List.mem_cons_self)
    obtain ⟨others, distinct⟩ := List.nodup_cons.mp distinct
    have free : id ∉ s.rules.map Rule.id := by
      intro inside
      obtain ⟨r, there, same⟩ := List.mem_map.mp inside
      exact unused c List.mem_cons_self r there (same ▸ own)
    have judged : s.addRule c.fresh c.proposal c.document =
        admitRule config c.document (Schema.infer config c.document) [] c.fresh c.proposal := by
      rw [addRule, settled.config, settled.base, sameDocument]
      exact admitRuleAlone ordered settled c.fresh own free
    have later := fun d (inside : d ∈ rest) => against d (List.mem_cons_of_mem c inside)
    have laterNamed := fun d (inside : d ∈ rest) => named d (List.mem_cons_of_mem c inside)
    have laterUnused := fun d (inside : d ∈ rest) => unused d (List.mem_cons_of_mem c inside)
    rw [adoptAllCons, adoptReturned returns, List.filterMap_cons, Call.alone, ← judged]
    cases admitted : s.addRule c.fresh c.proposal c.document with
    | error e => exact ih settled later laterNamed distinct laterUnused _
    | ok r =>
      have next := extendSettled settled (sameDocument ▸ admitted)
      -- The new rule has the identifier of its proposal, which no later proposal has.
      have freshNext : ∀ d ∈ rest, ∀ q ∈ (s.extend r).rules, d.proposal.id ≠ some q.id := by
        intro d inside q there
        rcases List.mem_append.mp there with old | new
        · exact laterUnused d inside q old
        · rw [List.mem_singleton.mp new, admittedId admitted, own, Option.getD_some, ← own]
          intro same
          exact others (List.mem_map.mpr ⟨d, inside, same⟩)
      have whole := ih next later laterNamed distinct freshNext
        (s.adopt store c.fresh c.proposal c.document state).2
      simpa [extend, Except.toOption] using whole

/-- In a session on what a document shows, what comes of a proposal with an unused identifier does
not depend on the proposals before it. So the order of proposals with distinct identifiers does
not change which rules are admitted. -/
theorem historyIndependent (returns : store.Returns) (ordered : document.Ordered)
    {calls : List Call} (against : ∀ c ∈ calls, c.document = document) {start state : σ}
    {s : Session} (reached : (ofSample document config).adoptAll store calls start = (s, state)) :
    (∀ (fresh : String) (p : Proposal) (id : String), p.id = some id → id ∉ s.rules.map Rule.id →
      admitRule config document (Schema.infer config document) s.rules fresh p =
        admitRule config document (Schema.infer config document) [] fresh p) ∧
    ((∀ c ∈ calls, c.proposal.id.isSome = true) → (calls.map fun c => c.proposal.id).Nodup →
      ∀ (others : List Call) (other : σ), calls.Perm others →
        ((ofSample document config).adoptAll store others other).1.rules.Perm s.rules) := by
  have settled := runSettled returns.faithful (sampleSettled config document) against start
  rw [reached] at settled
  refine ⟨fun fresh p id named unused => admitRuleAlone ordered settled fresh named unused, ?_⟩
  intro named distinct others other permuted
  have first := runAlone returns ordered (sampleSettled config document) against named distinct
    (fun _ _ _ none => nomatch none) start
  have second := runAlone returns ordered (sampleSettled config document)
    (fun c inside => against c (permuted.mem_iff.mpr inside))
    (fun c inside => named c (permuted.mem_iff.mpr inside))
    ((permuted.map _).nodup_iff.mp distinct) (fun _ _ _ none => nomatch none) other
  rw [reached] at first
  rw [first, second]
  exact permuted.symm.filterMap _

end

theorem historyIndependentInvoice :
    admitRule .standard Sample.invoice (Schema.infer .standard Sample.invoice)
        ((ofSample Sample.invoice .standard).adoptAll Sample.store Sample.calls .empty).1.rules
        "new" ⟨some "due", "totals.due", "<", "500", none⟩ =
      admitRule .standard Sample.invoice (Schema.infer .standard Sample.invoice) []
        "new" ⟨some "due", "totals.due", "<", "500", none⟩ ∧
    ((ofSample Sample.invoice .standard).adoptAll Sample.store Sample.calls.reverse
      .empty).1.rules.Perm
      ((ofSample Sample.invoice .standard).adoptAll Sample.store Sample.calls .empty).1.rules := by
  obtain ⟨alone, permuted⟩ := @historyIndependent .standard Sample.invoice Records Sample.store
    Store.memoryReturns Sample.invoiceOrdered Sample.calls (by decide +kernel) .empty _ _
    (Prod.eta _).symm
  constructor
  · exact alone "new" _ "due" rfl (by decide +kernel)
  · exact permuted (by decide) (by decide) _ _ (List.reverse_perm _).symm

end Session

end RuleSchema
