import RuleSchema.Proofs.Session.Runs
import RuleSchema.Proofs.Store.Simulation
/-! Sessions that share the records of one store. Each takes its proposals one after the other,
and an admission is two steps before the records: the rule is saved, then the merged schema is
stored. Between any two steps of one session the others may take steps of their own. -/
namespace RuleSchema

/-- The store without the storing of schemas. -/
def Store.puttingOff {m : Type → Type} [Monad m] (store : Store m) : Store m :=
  { store with upsertSchema := fun name content => pure (.ok ⟨name, content⟩) }

/-- An admission is the saving of the rule, and after it the storing of the schema. -/
theorem Session.adoptSteps {σ : Type} (store : Store (StateM σ)) (s : Session) (c : Call)
    (state : σ) :
    s.adopt store c.fresh c.proposal c.document state =
      match s.adopt store.puttingOff c.fresh c.proposal c.document state with
      | ((.error e, next), after) => ((.error e, next), after)
      | ((.ok r, next), after) => ((.ok r, next), (next.publish store after).2) := by
  rw [adoptEq, adoptEq]
  cases s.addRule c.fresh c.proposal c.document with
  | error e => rfl
  | ok r =>
    simp only [Store.puttingOff]
    cases store.saveRule r state with
    | mk result next => cases result <;> rfl

def Records.store : Store (StateM Records) := Store.memory

def Records.saving : Store (StateM Records) := store.puttingOff

structure Party where
  session : Session
  calls : List Call
  /-- Whether it has saved a rule and not yet stored the merged schema. -/
  owes : Bool

/-- The next step of a party, with its answer if it saves or rejects a rule. -/
def Party.turn (p : Party) : StateM Records (Option (Except Rejection Rule) × Party) := do
  if p.owes then
    p.session.publish Records.store
    return (none, { p with owes := false })
  else match p.calls with
    | [] => return (none, p)
    | c :: rest =>
      let (answer, next) ← p.session.adopt Records.saving c.fresh c.proposal c.document
      return (some answer, ⟨next, rest, answer.isOk⟩)

theorem Party.takeUp (s : Session) (c : Call) (rest : List Call) (records : Records) :
    turn ⟨s, c :: rest, false⟩ records =
      let ((answer, next), after) :=
        s.adopt Records.saving c.fresh c.proposal c.document records
      ((some answer, ⟨next, rest, answer.isOk⟩), after) := by
  simp only [turn, Bool.false_eq_true, if_false, bind, StateT.bind]
  generalize s.adopt Records.saving c.fresh c.proposal c.document records = adopted
  rfl

theorem Party.turnCases (p : Party) (records : Records) :
    (∃ answer next after, p.turn records = ((answer, next), after) ∧
      answer.bind Except.toOption = none ∧ next.session = p.session ∧ after.rules = records.rules) ∨
    ∃ r next after, p.turn records = ((some (.ok r), next), after) ∧
      (∀ q ∈ p.session.rules, q.id ≠ r.id) ∧ next.session = p.session.extend r ∧
        after.rules = Records.putRule r records.rules := by
  obtain ⟨s, calls, owes⟩ := p
  cases owes with
  | true => exact .inl ⟨none, _, _, rfl, rfl, rfl, rfl⟩
  | false =>
    cases calls with
    | nil => exact .inl ⟨none, _, _, rfl, rfl, rfl, rfl⟩
    | cons c rest =>
      have step := takeUp s c rest records
      rw [Session.adoptEq] at step
      cases judged : s.addRule c.fresh c.proposal c.document with
      | error e =>
        rw [judged] at step
        exact .inl ⟨some (.error e), _, records, step, rfl, rfl, rfl⟩
      | ok r =>
        rw [judged] at step
        exact .inr ⟨r, _, _, step, admittedUnused judged, rfl, rfl⟩

/-- The steps of an admission with no step of another party between them. -/
def Party.admission (p : Party) :
    StateM Records (Option (Except Rejection Rule) × Session) := do
  let (answer, next) ← p.turn
  if next.owes then
    let (_, last) ← next.turn
    return (answer, last.session)
  else return (answer, next.session)

theorem Party.admissionAdopts (s : Session) (c : Call) (rest : List Call) (records : Records) :
    admission ⟨s, c :: rest, false⟩ records =
      let ((answer, next), after) :=
        s.adopt Records.store c.fresh c.proposal c.document records
      ((some answer, next), after) := by
  simp only [admission, bind, StateT.bind, takeUp]
  rw [Session.adoptSteps Records.store s c records, Records.saving]
  cases s.adopt Records.store.puttingOff c.fresh c.proposal c.document records with
  | mk ends after =>
    obtain ⟨answer, next⟩ := ends
    cases answer <;> rfl

structure Gathering (ι : Type) where
  parties : ι → Party
  records : Records

namespace Gathering
variable {ι : Type} [DecidableEq ι]

def moved (g : Gathering ι) (who : ι) : Gathering ι :=
  let ((_, p), records) := (g.parties who).turn g.records
  ⟨fun w => if w = who then p else g.parties w, records⟩

/-- The rule an admission answers with in a step of a party. -/
def commit? (g : Gathering ι) (who : ι) : Option Rule :=
  ((g.parties who).turn g.records).1.1.bind Except.toOption

def run (g : Gathering ι) : List ι → Gathering ι
  | [] => g
  | who :: rest => run (g.moved who) rest

def commits (g : Gathering ι) : List ι → List (ι × Rule)
  | [] => []
  | who :: rest => ((g.commit? who).map fun r => (who, r)).toList ++ commits (g.moved who) rest

theorem movedOther {g : Gathering ι} {who other : ι} (different : other ≠ who) :
    (g.moved who).parties other = g.parties other :=
  if_neg different

theorem movedOwn (g : Gathering ι) (who : ι) :
    (g.moved who).parties who = ((g.parties who).turn g.records).1.2 :=
  if_pos rfl

theorem movedCases (g : Gathering ι) (who : ι) :
    (g.commit? who = none ∧
      ((g.moved who).parties who).session = (g.parties who).session ∧
      (g.moved who).records.rules = g.records.rules) ∨
    ∃ r, g.commit? who = some r ∧
      (∀ q ∈ (g.parties who).session.rules, q.id ≠ r.id) ∧
      ((g.moved who).parties who).session = (g.parties who).session.extend r ∧
      (g.moved who).records.rules = Records.putRule r g.records.rules := by
  rw [movedOwn]
  unfold commit? moved
  rcases (g.parties who).turnCases g.records with
    ⟨answer, next, after, turned, none, session, rules⟩ |
    ⟨r, next, after, turned, fresh, session, rules⟩
  · rw [turned]
    exact .inl ⟨none, session, rules⟩
  · rw [turned]
    exact .inr ⟨r, rfl, fresh, session, rules⟩

theorem heldStays {g : Gathering ι} {who : ι} {r : Rule} (schedule : List ι)
    (own : r ∈ (g.parties who).session.rules) (stored : r ∈ g.records.rules)
    (unreplaced : ∀ other q, (other, q) ∈ g.commits schedule → other ≠ who → q.id ≠ r.id) :
    r ∈ (g.run schedule).records.rules := by
  -- While its own session has the rule, that session admits no other with the identifier.
  induction schedule generalizing g with
  | nil => exact stored
  | cons mover rest ih =>
    have later : ∀ other q, (other, q) ∈ (g.moved mover).commits rest → other ≠ who →
        q.id ≠ r.id := fun other q inside => unreplaced other q (List.mem_append_right _ inside)
    have ownElse : mover ≠ who → r ∈ ((g.moved mover).parties who).session.rules := by
      intro different
      rw [movedOther different.symm]
      exact own
    rcases g.movedCases mover with ⟨_, session, rules⟩ | ⟨q, committed, fresh, session, rules⟩
    · refine ih ?_ (rules ▸ stored) later
      by_cases same : mover = who
      · subst same
        rw [session]
        exact own
      · exact ownElse same
    · by_cases same : mover = who
      · subst same
        refine ih ?_ ?_ later
        · rw [session]
          exact List.mem_append_left [q] own
        · rw [rules]
          exact Records.putRuleKeeps (fresh r own) stored
      · refine ih (ownElse same) ?_ later
        have different : q.id ≠ r.id := unreplaced mover q
          (List.mem_append_left _ (by simp [committed])) same
        rw [rules]
        exact Records.putRuleKeeps different.symm stored

/-- Whatever the order in which sessions take their steps, a rule an admission answered with is
among the stored rules at the end as it was answered, unless another session later admitted a rule
with the same identifier. -/
theorem commitStored {g : Gathering ι} {schedule : List ι} {who : ι} {r : Rule}
    {earlier later : List (ι × Rule)}
    (committed : g.commits schedule = earlier ++ (who, r) :: later)
    (unreplaced : ∀ other q, (other, q) ∈ later → other ≠ who → q.id ≠ r.id) :
    r ∈ (g.run schedule).records.rules := by
  induction schedule generalizing g earlier with
  | nil => simp [commits] at committed
  | cons mover rest ih =>
    rw [commits] at committed
    rcases g.movedCases mover with ⟨none, _, _⟩ | ⟨q, made, _, session, rules⟩
    · rw [none] at committed
      exact ih committed
    · rw [made] at committed
      cases earlier with
      | cons first others => exact ih (List.cons.inj committed).2
      | nil =>
        obtain ⟨same, rfl⟩ := List.cons.inj committed
        cases same
        refine heldStays rest ?_ ?_ unreplaced
        · rw [session]
          exact List.mem_append_right _ (List.mem_singleton_self r)
        · rw [rules]
          exact Records.inPutRule g.records.rules

end Gathering

namespace Sample

def gathering (first second : Call) : Gathering Bool :=
  ⟨fun who => ⟨.ofSample invoice .standard, [if who then first else second], false⟩, .empty⟩

/-- The second session takes its steps while the first is still to store its schema. -/
def schedule : List Bool := [true, false, false, true]

def high : Call := call "high" "totals.paid" "<=" "1e3"

def lowAgain : Call := call "low" "status" "==" "paid"

end Sample

namespace Gathering
open Sample

theorem commitStoredInvoice :
    rule "low" "totals.paid" .greater "10" ∈
      ((gathering low high).run schedule).records.rules := by
  have committed : (gathering low high).commits schedule =
      [] ++ (true, rule "low" "totals.paid" .greater "10") ::
        [(false, rule "high" "totals.paid" .lessOrEqual "1e3")] := by
    decide +kernel
  refine commitStored committed fun other q inside _ => ?_
  cases List.mem_singleton.mp inside
  decide

theorem commitReplaced :
    (true, rule "low" "totals.paid" .greater "10") ∈
        (gathering low lowAgain).commits schedule ∧
      rule "low" "totals.paid" .greater "10" ∉
        ((gathering low lowAgain).run schedule).records.rules := by
  decide +kernel

end Gathering

end RuleSchema
