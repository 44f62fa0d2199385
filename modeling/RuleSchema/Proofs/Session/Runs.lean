import RuleSchema.Proofs.Admission.Outcome
import RuleSchema.Session
import RuleSchema.Store.Memory
/-! Runs of a session: any proposals, each against a document of its own, before a store that
may fail. What holds of the rules is kept by every adoption, and so by every run. -/
namespace RuleSchema

/-- A store that answers the saving of a rule with that rule, if it does not fail. -/
def Store.Faithful {σ : Type} (store : Store (StateM σ)) : Prop :=
  ∀ r state saved, (store.saveRule r state).1 = .ok saved → saved = r

/-- A store that never fails to save a rule, and answers with it. -/
def Store.Returns {σ : Type} (store : Store (StateM σ)) : Prop :=
  ∀ r state, (store.saveRule r state).1 = .ok r

theorem Store.Returns.faithful {σ : Type} {store : Store (StateM σ)} (returns : store.Returns) :
    store.Faithful := by
  intro r state saved answer
  rw [returns r state] at answer
  exact (Except.ok.inj answer).symm

theorem Store.memoryReturns : (Store.memory : Store (StateM Records)).Returns :=
  fun _ _ => rfl

/-- One proposal, the document it is judged by, and an identifier if it has none. -/
structure Call where
  fresh : String
  proposal : Proposal
  document : Json

namespace Sample

def call (id field condition value : String) : Call :=
  ⟨"new", ⟨some id, field, condition, value, none⟩, invoice⟩

def low : Call := call "low" "totals.paid" ">" "10"

/-- Two proposals for one field, one that does not hold, and one for another field. -/
def calls : List Call :=
  [call "low" "totals.paid" ">" " 10; ", call "high" "totals.paid" "<=" "1e2",
    call "most" "totals.paid" ">=" "250", call "paid" " status " "==" "paid"]

def due : Call := call "due" "totals.due" "<" "501"

def store : Store (StateM Records) := Store.memory

def invoiceSession : Session := .ofSample invoice .standard

end Sample

namespace Session

def adoptAll {m : Type → Type} [Monad m] (store : Store m) (s : Session) : List Call → m Session
  | [] => pure s
  | c :: rest => do
    let (_, next) ← s.adopt store c.fresh c.proposal c.document
    adoptAll store next rest

/-- What is true of the rules of every session. -/
structure Coherent (s : Session) : Prop where
  distinct : (s.rules.map Rule.id).Nodup
  formed : ∀ r ∈ s.rules, r.WellFormed
  /-- The merged schema never falls back to the base. -/
  merged : ∃ upper, Schema.ofRules s.base s.rules = .ok upper ∧ s.mergedSchema = s.base.merge upper

def extend (s : Session) (r : Rule) : Session := { s with rules := s.rules ++ [r] }

theorem newCoherent (base : Schema) (config : Config) : (new base config).Coherent where
  distinct := List.nodup_nil
  formed := nofun
  merged := ⟨Schema.bare .object, rfl, (Schema.mergeBare base .object).symm⟩

theorem mergedOfFormed {s : Session} (formed : ∀ r ∈ s.rules, r.WellFormed) :
    ∃ upper, Schema.ofRules s.base s.rules = .ok upper ∧
      s.mergedSchema = s.base.merge upper := by
  have compiled := Schema.ofRulesImposes s.base fun r inside => (formed r inside).compiles
  exact ⟨_, compiled, Schema.withRulesMerged compiled⟩

theorem extendCoherent {s : Session} (coherent : s.Coherent) {fresh : String} {p : Proposal}
    {document : Json} {r : Rule} (admitted : s.addRule fresh p document = .ok r) :
    (s.extend r).Coherent ∧ Engine.Accepts s.base (s.rules ++ [r]) s.config document := by
  obtain ⟨shaped, path, made, fits, unused, _, tried⟩ := admitRuleOk admitted
  obtain ⟨rfl, accepts⟩ := tryRuleOk tried
  have formed : ∀ q ∈ (s.extend { shaped with isValid := true }).rules, q.WellFormed := by
    intro q inside
    rcases List.mem_append.mp inside with old | new
    · exact coherent.formed q old
    · rw [List.mem_singleton.mp new]
      exact Proposal.wellFormed made fits
  -- The trial took the rule before it was marked valid.
  refine ⟨⟨?_, formed, mergedOfFormed formed⟩, acceptsMarked shaped true accepts⟩
  simp only [extend, List.map_append, List.nodup_append]
  refine ⟨coherent.distinct, by simp, ?_⟩
  intro id old other new
  obtain ⟨q, inside, rfl⟩ := List.mem_map.mp old
  rw [show other = shaped.id by simpa using new]
  exact unused q inside

section
variable {σ : Type} {store : Store (StateM σ)}

theorem adoptEq (store : Store (StateM σ)) (s : Session) (fresh : String) (p : Proposal)
    (document : Json) (state : σ) :
    s.adopt store fresh p document state = match s.addRule fresh p document with
      | .error e => ((.error e, s), state)
      | .ok r => match store.saveRule r state with
        | (.error e, next) => ((.error (.store e), s), next)
        | (.ok saved, next) =>
          ((.ok saved, s.extend saved), ((s.extend saved).publish store next).2) := by
  unfold adopt
  cases s.addRule fresh p document with
  | error e => rfl
  | ok r =>
    simp only [bind, StateT.bind]
    cases store.saveRule r state with
    | mk result next => cases result <;> rfl

/-- An adoption ends before the store is called, with a rule that the store refused, or with one
that it saved. -/
theorem adoptCases (store : Store (StateM σ)) (s : Session) (fresh : String) (p : Proposal)
    (document : Json) (state : σ) :
    (∃ why, s.addRule fresh p document = .error why ∧
      s.adopt store fresh p document state = ((.error why, s), state)) ∨
    (∃ r failure after, s.addRule fresh p document = .ok r ∧
      store.saveRule r state = (.error failure, after) ∧
      s.adopt store fresh p document state = ((.error (.store failure), s), after)) ∨
    ∃ r saved middle, s.addRule fresh p document = .ok r ∧
      store.saveRule r state = (.ok saved, middle) ∧
      s.adopt store fresh p document state =
        ((.ok saved, s.extend saved), ((s.extend saved).publish store middle).2) := by
  rw [adoptEq]
  cases s.addRule fresh p document with
  | error why => exact .inl ⟨why, rfl, rfl⟩
  | ok r =>
    dsimp only
    cases saving : store.saveRule r state with
    | mk result middle => cases result with
      | error failure => exact .inr (.inl ⟨r, failure, middle, rfl, saving, rfl⟩)
      | ok saved => exact .inr (.inr ⟨r, saved, middle, rfl, saving, rfl⟩)

theorem adoptEnds (faithful : store.Faithful) (s : Session) (c : Call) (state : σ) :
    (∃ e after, s.adopt store c.fresh c.proposal c.document state = ((.error e, s), after)) ∨
    ∃ r after, s.adopt store c.fresh c.proposal c.document state = ((.ok r, s.extend r), after) ∧
      s.addRule c.fresh c.proposal c.document = .ok r := by
  rcases adoptCases store s c.fresh c.proposal c.document state with
    ⟨why, _, ends⟩ | ⟨_, failure, after, _, _, ends⟩ | ⟨r, saved, _, judged, saving, ends⟩
  · exact .inl ⟨why, state, ends⟩
  · exact .inl ⟨.store failure, after, ends⟩
  · have same : saved = r := faithful r state saved (by rw [saving])
    subst same
    exact .inr ⟨saved, _, ends, judged⟩

theorem adoptAllCons (s : Session) (c : Call) (rest : List Call) (state : σ) :
    s.adoptAll store (c :: rest) state =
      (s.adopt store c.fresh c.proposal c.document state).1.2.adoptAll store rest
        (s.adopt store c.fresh c.proposal c.document state).2 := by
  rw [adoptAll]
  generalize s.adopt store c.fresh c.proposal c.document = turn
  rfl

/-- What holds of a session and is kept by every adoption of a run holds at its end. -/
theorem adoptAllInduction {motive : Session → Prop} {calls : List Call}
    (kept : ∀ s c state, c ∈ calls → motive s →
      motive (s.adopt store c.fresh c.proposal c.document state).1.2)
    {s : Session} (here : motive s) (state : σ) : motive (s.adoptAll store calls state).1 := by
  induction calls generalizing s state with
  | nil => exact here
  | cons c rest ih =>
    rw [adoptAllCons]
    exact ih (fun t d state inside => kept t d state (List.mem_cons_of_mem c inside))
      (kept s c state List.mem_cons_self here) _

theorem adoptAllKeeps (faithful : store.Faithful) {s : Session} (coherent : s.Coherent)
    (calls : List Call) (state : σ) :
    (s.adoptAll store calls state).1.Coherent ∧
      (s.adoptAll store calls state).1.base = s.base ∧
      (s.adoptAll store calls state).1.config = s.config ∧
      s.rules <+: (s.adoptAll store calls state).1.rules := by
  refine adoptAllInduction (motive := fun t => t.Coherent ∧ t.base = s.base ∧
    t.config = s.config ∧ s.rules <+: t.rules) (fun t c state _ reached => ?_)
    ⟨coherent, rfl, rfl, List.prefix_rfl⟩ state
  rcases adoptEnds faithful t c state with ⟨e, after, ends⟩ | ⟨r, after, ends, admitted⟩
  · rw [ends]
    exact reached
  · rw [ends]
    obtain ⟨kept, base, config, grown⟩ := reached
    exact ⟨(extendCoherent kept admitted).1, base, config,
      grown.trans (List.prefix_append t.rules [r])⟩

/-- Every session a run reaches is coherent and only grows at its end. The next adoption leaves it
as it is, or ends in a session that accepts the document of that adoption. -/
theorem runCoherent (faithful : store.Faithful) {base : Schema} {config : Config}
    {calls : List Call} {start state : σ} {s : Session}
    (reached : (new base config).adoptAll store calls start = (s, state)) :
    s.Coherent ∧ s.base = base ∧ s.config = config ∧
      (∀ more, s.rules <+: (s.adoptAll store more state).1.rules) ∧
      ∀ c : Call,
        (∃ e after,
          s.adopt store c.fresh c.proposal c.document state = ((.error e, s), after)) ∨
        ∃ r after,
          s.adopt store c.fresh c.proposal c.document state = ((.ok r, s.extend r), after) ∧
            (s.extend r).validate c.document = .ok ⟨[]⟩ ∧
            Rule.issues (s.extend r).rules c.document = [] ∧
            (s.extend r).mergedSchema.Passes s.config c.document := by
  have run := adoptAllKeeps faithful (newCoherent base config) calls start
  rw [reached] at run
  obtain ⟨coherent, sameBase, sameConfig, _⟩ := run
  refine ⟨coherent, sameBase, sameConfig,
    fun more => (adoptAllKeeps faithful coherent more state).2.2.2, fun c => ?_⟩
  rcases adoptEnds faithful s c state with same | ⟨r, after, ends, admitted⟩
  · exact .inl same
  · have accepts := (extendCoherent coherent admitted).2
    exact .inr ⟨r, after, ends, accepts.report, accepts.hold, accepts.passes⟩

end

open Sample in
theorem runCoherentInvoice : ∃ s state r after,
    invoiceSession.adoptAll Sample.store calls .empty = (s, state) ∧
      s.rules.map Rule.id = ["low", "most", "paid"] ∧ s.Coherent ∧
      s.adopt Sample.store due.fresh due.proposal due.document state =
        ((.ok r, s.extend r), after) ∧
      (s.extend r).validate invoice = .ok ⟨[]⟩ ∧
      Rule.issues (s.extend r).rules invoice = [] ∧
      (s.extend r).mergedSchema.Passes s.config invoice := by
  have ids : (invoiceSession.adoptAll Sample.store calls .empty).1.rules.map Rule.id =
      ["low", "most", "paid"] := by
    decide +kernel
  have taken : ((invoiceSession.adoptAll Sample.store calls .empty).1.adopt Sample.store due.fresh
      due.proposal due.document
      (invoiceSession.adoptAll Sample.store calls .empty).2).1.1.isOk = true := by
    decide +kernel
  cases run : invoiceSession.adoptAll Sample.store calls .empty with
  | mk s state =>
    simp only [run] at ids taken
    have faithful : Sample.store.Faithful := Store.memoryReturns.faithful
    obtain ⟨coherent, _, _, _, next⟩ := runCoherent faithful run
    rcases next due with ⟨e, after, refused⟩ | ⟨r, after, ends, report, hold, passes⟩
    · rw [refused] at taken
      cases taken
    · exact ⟨s, state, r, after, rfl, ids, coherent, ends, report, hold, passes⟩

end Session

end RuleSchema
