import RuleSchema.Proofs.Schema.Document
import RuleSchema.Proofs.Session.Runs
import RuleSchema.Proofs.Store.Simulation
/-! A session and its store. The stored rules are those of the session after every admission,
and from the first rule that comes in the stored schema is the merged schema of the session, so
that loading it gives the engine of the session again. -/
namespace RuleSchema

namespace Session

def adoptEach {m : Type → Type} [Monad m] (store : Store m) (s : Session) :
    List Call → m (List (Except Rejection Rule) × Session)
  | [] => pure ([], s)
  | c :: rest => do
    let (answer, next) ← s.adopt store c.fresh c.proposal c.document
    let (answers, last) ← adoptEach store next rest
    return (answer :: answers, last)

def publishedIn (s : Session) (records : Records) : Records :=
  records.upsertSchema ⟨s.config.schemaName, s.mergedSchema.toJson⟩

/-- The records a run writes, one after the other. -/
def writes (s : Session) : List Call → Records → List Records
  | [], _ => []
  | c :: rest, records => match s.addRule c.fresh c.proposal c.document with
    | .error _ => s.writes rest records
    | .ok r =>
      let saved := records.saveRule r
      let published := (s.extend r).publishedIn saved
      saved :: published :: (s.extend r).writes rest published

end Session

/-- A store that can take up what a run writes: the store in memory, or the store in a file where
nothing fails and every text of the run reads as the tree it was printed from. -/
inductive Store.Serves (s : Session) (calls : List Call) :
    {σ : Type} → Store (StateM σ) → σ → Prop
  | memory (records : Records) : Serves s calls Store.memory records
  | file {σ : Type} {fs : FileSystem (StateM σ)} {path : String} {text : σ → Option String}
      (keeps : fs.Keeps path text) {state : σ} {records : Records}
      (read : Records.ofText? (text state) = .ok records)
      (trips : ∀ w ∈ s.writes calls records, w.RoundTrips) :
      Serves s calls (Store.file fs path) state

theorem Store.Serves.simulates {s : Session} {calls : List Call} {σ : Type}
    {store : Store (StateM σ)} {state : σ} (serves : store.Serves s calls state) :
    ∃ holds storable records, store.Simulates holds storable ∧ holds state records ∧
      ∀ w ∈ s.writes calls records, storable w := by
  cases serves with
  | memory records => exact ⟨_, _, records, memorySimulates, rfl, fun _ _ => trivial⟩
  | file keeps read trips => exact ⟨_, _, _, fileSimulates keeps, read, trips⟩

namespace Session
variable {σ : Type} {store : Store (StateM σ)} {holds : σ → Records → Prop}
  {storable : Records → Prop}

theorem publishSimulated (simulates : store.Simulates holds storable) {s : Session}
    (ordered : s.base.Ordered) {state : σ} {records : Records} (held : holds state records)
    (can : storable (s.publishedIn records)) :
    holds (s.publish store state).2 (s.publishedIn records) := by
  obtain ⟨after, upserted, holding⟩ := simulates.upsertSchema held
    ⟨s.config.schemaName, s.mergedSchema.toJson⟩
    (Schema.toJsonOrdered (Schema.withRulesOrdered ordered s.rules)) can
  have ends : (s.publish store state).2 = after := by
    simp only [publish, bind, StateT.bind, upserted]
    rfl
  rw [ends]
  exact holding

theorem adoptSimulated (simulates : store.Simulates holds storable) {s : Session}
    (ordered : s.base.Ordered) {state : σ} {records : Records} (held : holds state records)
    (c : Call) {rest : List Call} (can : ∀ w ∈ s.writes (c :: rest) records, storable w) :
    (∃ e, s.adopt store c.fresh c.proposal c.document state = ((.error e, s), state) ∧
      ∀ w ∈ s.writes rest records, storable w) ∨
    ∃ r after, s.adopt store c.fresh c.proposal c.document state =
        ((.ok r, s.extend r), after) ∧
      s.addRule c.fresh c.proposal c.document = .ok r ∧
      holds after ((s.extend r).publishedIn (records.saveRule r)) ∧
      ∀ w ∈ (s.extend r).writes rest ((s.extend r).publishedIn (records.saveRule r)),
        storable w := by
  rw [adoptEq]
  rw [writes] at can
  cases judged : s.addRule c.fresh c.proposal c.document with
  | error e =>
    rw [judged] at can
    exact .inl ⟨e, rfl, can⟩
  | ok r =>
    rw [judged] at can
    simp only [List.mem_cons, forall_eq_or_imp] at can
    obtain ⟨saved, published, later⟩ := can
    obtain ⟨middle, saving, holding⟩ := simulates.saveRule held r saved
    have publishing := publishSimulated (s := s.extend r) simulates ordered holding published
    refine .inr ⟨r, _, ?_, rfl, publishing, later⟩
    simp only [saving]

structure Published (s : Session) (records : Records) : Prop where
  record : records.schemas.get? s.config.schemaName =
    some ⟨s.config.schemaName, s.mergedSchema.toJson⟩
  sound : s.mergedSchema.fault? = none

theorem extendPublished {s : Session} {c : Call} {r : Rule}
    (admitted : s.addRule c.fresh c.proposal c.document = .ok r) (records : Records) :
    (s.extend r).Published ((s.extend r).publishedIn records) := by
  refine ⟨?_, ?_⟩
  · rw [publishedIn, Records.upsertSchema, Keyed.getInsert, if_pos rfl]
  · obtain ⟨shaped, path, _, _, _, _, tried⟩ := admitRuleOk admitted
    obtain ⟨rfl, accepts⟩ := tryRuleOk tried
    exact (acceptsMarked shaped true accepts).sound

/-- A session and its records after a run, from a session and records with the same rules. -/
structure InStep (s : Session) (records : Records) (answers : List (Except Rejection Rule))
    (last : Session) (final : Records) : Prop where
  base : last.base = s.base
  config : last.config = s.config
  rules : final.rules = last.rules
  others : ∀ name, name ≠ s.config.schemaName →
    final.schemas.get? name = records.schemas.get? name
  published : (s.Published records ∨ ∃ r, .ok r ∈ answers) → last.Published final

theorem adoptEachInStep (simulates : store.Simulates holds storable) {s : Session}
    (ordered : s.base.Ordered) {state : σ} {records : Records} (held : holds state records)
    (same : records.rules = s.rules) {calls : List Call}
    (can : ∀ w ∈ s.writes calls records, storable w) :
    ∃ answers last after final, s.adoptEach store calls state = ((answers, last), after) ∧
      holds after final ∧ InStep s records answers last final := by
  induction calls generalizing s state records with
  | nil =>
    refine ⟨[], s, state, records, rfl, held, rfl, rfl, same, fun _ _ => rfl, ?_⟩
    rintro (before | ⟨r, answered⟩)
    · exact before
    · cases answered
  | cons c rest ih =>
    rcases adoptSimulated simulates ordered held c can with
      ⟨e, ends, later⟩ | ⟨r, middle, ends, admitted, holding, later⟩
    · obtain ⟨answers, last, after, final, run, holding, step⟩ := ih ordered held same later
      refine ⟨.error e :: answers, last, after, final, ?_, holding, step.base, step.config,
        step.rules, step.others, ?_⟩
      · simp only [adoptEach, bind, StateT.bind, ends, run]
        rfl
      · rintro (before | ⟨q, answered⟩)
        · exact step.published (.inl before)
        · cases answered with
          | tail _ answered => exact step.published (.inr ⟨q, answered⟩)
    · have appended : ((s.extend r).publishedIn (records.saveRule r)).rules =
          (s.extend r).rules := by
        show Records.putRule r records.rules = s.rules ++ [r]
        rw [same]
        exact Records.putRuleNew (admittedUnused admitted)
      obtain ⟨answers, last, after, final, run, holding, step⟩ :=
        ih (s := s.extend r) ordered holding appended later
      refine ⟨.ok r :: answers, last, after, final, ?_, holding, step.base, step.config,
        step.rules, fun name other => ?_, fun _ => ?_⟩
      · simp only [adoptEach, bind, StateT.bind, ends, run]
        rfl
      · rw [step.others name other, publishedIn, Records.upsertSchema, Keyed.getInsert,
          if_neg fun same => other same.symm]
        rfl
      · exact step.published (.inl (extendPublished admitted _))

/-- In step with its store, a session stays so: after any run the store has the rules of the
session and, once a rule came in, a schema that loads to the engine of the session, which is that
of the base and the stored rules. Schemas under other names stay as they were. -/
theorem storeInStep {s : Session} {calls : List Call} {start : σ}
    (serves : store.Serves s calls start) (ordered : s.base.Ordered)
    (resumed : (store.rules start).1 = .ok s.rules) :
    ∃ answers last after, s.adoptEach store calls start = ((answers, last), after) ∧
      (store.rules after).1 = .ok last.rules ∧
      (∀ name, name ≠ s.config.schemaName →
        (store.schema? name after).1 = (store.schema? name start).1) ∧
      ∀ r, .ok r ∈ answers → ∃ record schema loaded merged,
        (store.schema? s.config.schemaName after).1 = .ok (some record) ∧
        Schema.ofJson? record.content = some schema ∧
        Engine.compile schema last.rules s.config = .ok loaded ∧
        Engine.ofBase s.base last.rules s.config = .ok merged ∧
        ∀ document, last.validate document = .ok (loaded.validate document) ∧
          last.validate document = .ok (merged.validate document) := by
  obtain ⟨holds, storable, records, simulates, held, can⟩ := serves.simulates
  have same : records.rules = s.rules := by
    rw [simulates.rules held] at resumed
    exact Except.ok.inj resumed
  obtain ⟨answers, last, after, final, run, holding, step⟩ :=
    adoptEachInStep simulates ordered held same can
  refine ⟨answers, last, after, run, ?_, fun name other => ?_, fun r answered => ?_⟩
  · rw [simulates.rules holding, step.rules]
  · rw [simulates.schema holding, simulates.schema held, step.others name other]
  · obtain ⟨record, sound⟩ := step.published (.inr ⟨r, answered⟩)
    rw [step.config] at record
    have engine : last.engine = .ok ⟨last.mergedSchema, last.rules, s.config, sound⟩ := by
      rw [engine, step.config]
      exact Engine.compileSound sound last.rules s.config
    have merged : Engine.ofBase s.base last.rules s.config = last.engine := by
      rw [Session.engine, Engine.ofBase, mergedSchema, step.base, step.config]
    refine ⟨⟨s.config.schemaName, last.mergedSchema.toJson⟩, last.mergedSchema, _, _, ?_,
      Schema.ofJsonToJson _, Engine.compileSound sound last.rules s.config,
      merged.trans engine, fun document => ?_⟩
    · rw [simulates.schema holding, record]
    · rw [validate, engine]
      exact ⟨rfl, rfl⟩

open Sample in
theorem storeInStepInvoice :
    (∃ answers last after,
      (ofSample invoice .standard).adoptEach Sample.store calls .empty = ((answers, last), after) ∧
        (Sample.store.rules after).1 = .ok last.rules ∧
        ∃ record, (Sample.store.schema? "invoice" after).1 = .ok (some record)) ∧
    ∃ answers last after,
      (ofSample invoice .standard).adoptEach (Store.file .inMemory "rules.json") (calls.take 2) [] =
          ((answers, last), after) ∧
        ((Store.file .inMemory "rules.json").rules after).1 = .ok last.rules := by
  have ordered := Schema.inferOrdered .standard invoiceOrdered
  constructor
  · have serves : Sample.store.Serves (ofSample invoice .standard) calls .empty :=
      .memory .empty
    obtain ⟨answers, last, after, run, rules, _, came⟩ := storeInStep serves ordered rfl
    have accepted : (((ofSample invoice .standard).adoptEach Sample.store calls .empty).1.1.any
        fun answer => answer.isOk) = true := by
      decide +kernel
    rw [run] at accepted
    obtain ⟨answer, inside, fine⟩ := List.any_eq_true.mp accepted
    cases answer with
    | error e => cases fine
    | ok r =>
      obtain ⟨record, _, _, _, found, _⟩ := came r inside
      exact ⟨answers, last, after, run, rules, record, found⟩
  · have plain : Files.isPlain "rules.json" = true := by decide +kernel
    have trips : ∀ w ∈ (ofSample invoice .standard).writes (calls.take 2) .empty,
        w.RoundTrips := by
      decide +kernel
    have serves : (Store.file .inMemory "rules.json").Serves (ofSample invoice .standard)
        (calls.take 2) [] := .file (FileSystem.inMemoryKeeps plain) rfl trips
    obtain ⟨answers, last, after, run, rules, _⟩ := storeInStep serves ordered rfl
    exact ⟨answers, last, after, run, rules⟩

end Session

end RuleSchema
