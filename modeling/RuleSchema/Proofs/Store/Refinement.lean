import RuleSchema.Proofs.Store.Simulation
/-! Runs of calls to a store. Whatever the calls, through any handles on one file that is missing
or blank at first, each answers as the store in memory does, and changes in the records only what
it names. -/
namespace RuleSchema

inductive StoreCall where
  | saveRule (r : Rule)
  | upsertSchema (name : String) (content : Json)
  | schema (name : String)
  | rules
  deriving DecidableEq, Repr

inductive StoreAnswer where
  | saved (result : Except StoreError Rule)
  | upserted (result : Except StoreError SchemaRecord)
  | found (result : Except StoreError (Option SchemaRecord))
  | listed (result : Except StoreError (List Rule))

def Store.perform {m : Type → Type} [Monad m] (store : Store m) : StoreCall → m StoreAnswer
  | .saveRule r => StoreAnswer.saved <$> store.saveRule r
  | .upsertSchema name content => StoreAnswer.upserted <$> store.upsertSchema name content
  | .schema name => StoreAnswer.found <$> store.schema? name
  | .rules => StoreAnswer.listed <$> store.rules

def performAll {ι : Type} {m : Type → Type} [Monad m] (store : ι → Store m) :
    List (ι × StoreCall) → m (List StoreAnswer)
  | [] => pure []
  | (handle, c) :: rest => do
    let answer ← (store handle).perform c
    let answers ← performAll store rest
    return answer :: answers

namespace StoreCall

/-- What a call hands over is a value as a program holds it. -/
def Ordered : StoreCall → Prop
  | .upsertSchema _ content => content.Ordered
  | .saveRule _ | .schema _ | .rules => True

def answer (records : Records) : StoreCall → StoreAnswer
  | .saveRule r => .saved (.ok r)
  | .upsertSchema name content => .upserted (.ok ⟨name, content⟩)
  | .schema name => .found (.ok (records.schemas.get? name))
  | .rules => .listed (.ok records.rules)

def changed (records : Records) : StoreCall → Records
  | .saveRule r => records.saveRule r
  | .upsertSchema name content => records.upsertSchema ⟨name, content⟩
  | .schema _ | .rules => records

/-- The records that calls write, one after the other. -/
def written : List StoreCall → Records → List Records
  | [], _ => []
  | c :: rest, records => match c with
    | .saveRule _ | .upsertSchema _ _ => c.changed records :: written rest (c.changed records)
    | .schema _ | .rules => written rest records

/-- A call, the records before it, its answer and the records after it. -/
inductive Effect : StoreCall → Records → StoreAnswer → Records → Prop
  | replaced {r old : Rule} {before after : List Rule} {schemas : Keyed SchemaRecord}
      (same : old.id = r.id) (first : ∀ q ∈ before, q.id ≠ r.id) :
      Effect (.saveRule r) ⟨before ++ old :: after, schemas⟩ (.saved (.ok r))
        ⟨before ++ r :: after, schemas⟩
  | appended {r : Rule} {rules : List Rule} {schemas : Keyed SchemaRecord}
      (unused : ∀ q ∈ rules, q.id ≠ r.id) :
      Effect (.saveRule r) ⟨rules, schemas⟩ (.saved (.ok r)) ⟨rules ++ [r], schemas⟩
  | upserted {name : String} {content : Json} {rules : List Rule}
      {schemas next : Keyed SchemaRecord} (own : next.get? name = some ⟨name, content⟩)
      (others : ∀ other, other ≠ name → next.get? other = schemas.get? other) :
      Effect (.upsertSchema name content) ⟨rules, schemas⟩ (.upserted (.ok ⟨name, content⟩))
        ⟨rules, next⟩
  | found {name : String} {records : Records} :
      Effect (.schema name) records (.found (.ok (records.schemas.get? name))) records
  | listed {records : Records} :
      Effect .rules records (.listed (.ok records.rules)) records

def answers : List StoreCall → Records → List StoreAnswer
  | [], _ => []
  | c :: rest, records => c.answer records :: answers rest (c.changed records)

def last (calls : List StoreCall) (records : Records) : Records :=
  calls.foldl changed records

inductive Run : Records → List StoreCall → List StoreAnswer → Records → Prop
  | nil {records : Records} : Run records [] [] records
  | cons {c : StoreCall} {calls : List StoreCall} {a : StoreAnswer} {answers : List StoreAnswer}
      {before middle after : Records} (first : c.Effect before a middle)
      (rest : Run middle calls answers after) : Run before (c :: calls) (a :: answers) after

theorem effect (c : StoreCall) (records : Records) :
    c.Effect records (c.answer records) (c.changed records) := by
  obtain ⟨rules, schemas⟩ := records
  cases c with
  | saveRule r =>
    rw [changed, Records.saveRule]
    cases found : rules.find? fun q => q.id = r.id with
    | none =>
      have unused : ∀ q ∈ rules, q.id ≠ r.id := by simpa using found
      rw [Records.putRuleNew unused]
      exact .appended unused
    | some old =>
      obtain ⟨same, before, after, rfl, first⟩ := List.find?_eq_some_iff_append.mp found
      simp only [decide_eq_true_eq, Bool.not_eq_eq_eq_not, Bool.not_true,
        decide_eq_false_iff_not] at same first
      rw [Records.putRuleKnown same first]
      exact .replaced same first
  | upsertSchema name content =>
    refine .upserted ?_ fun other differs => ?_
    · rw [Keyed.getInsert, if_pos rfl]
    · rw [Keyed.getInsert, if_neg differs.symm]
  | schema name => exact .found
  | rules => exact .listed

theorem runs (calls : List StoreCall) (records : Records) :
    Run records calls (answers calls records) (last calls records) := by
  induction calls generalizing records with
  | nil => exact .nil
  | cons c rest ih => exact .cons (c.effect records) (ih (c.changed records))

end StoreCall

section
variable {σ : Type} {holds : σ → Records → Prop} {storable : Records → Prop}

theorem Store.performSimulated {store : Store (StateM σ)}
    (simulates : store.Simulates holds storable) {state : σ} {records : Records}
    (held : holds state records) {c : StoreCall} (ordered : c.Ordered) {rest : List StoreCall}
    (can : ∀ w ∈ StoreCall.written (c :: rest) records, storable w) :
    (∃ after, store.perform c state = (c.answer records, after) ∧
      holds after (c.changed records)) ∧
    ∀ w ∈ StoreCall.written rest (c.changed records), storable w := by
  cases c with
  | saveRule r =>
    simp only [StoreCall.written, List.mem_cons, forall_eq_or_imp] at can
    obtain ⟨after, saving, holding⟩ := simulates.saveRule held r can.1
    refine ⟨⟨after, ?_, holding⟩, can.2⟩
    simp only [perform, Functor.map, StateT.map, bind, saving]
    rfl
  | upsertSchema name content =>
    simp only [StoreCall.written, List.mem_cons, forall_eq_or_imp] at can
    obtain ⟨after, upserting, holding⟩ := simulates.upsertSchema held ⟨name, content⟩ ordered can.1
    refine ⟨⟨after, ?_, holding⟩, can.2⟩
    simp only [perform, Functor.map, StateT.map, bind, upserting]
    rfl
  | schema name =>
    refine ⟨⟨state, ?_, held⟩, can⟩
    simp only [perform, Functor.map, StateT.map, bind, simulates.schema held]
    rfl
  | rules =>
    refine ⟨⟨state, ?_, held⟩, can⟩
    simp only [perform, Functor.map, StateT.map, bind, simulates.rules held]
    rfl

theorem performAllSimulated {ι : Type} (store : ι → Store (StateM σ))
    {calls : List (ι × StoreCall)}
    (simulate : ∀ p ∈ calls, (store p.1).Simulates holds storable)
    (ordered : ∀ p ∈ calls, p.2.Ordered) {state : σ} {records : Records}
    (held : holds state records)
    (can : ∀ w ∈ StoreCall.written (calls.map Prod.snd) records, storable w) :
    ∃ after, performAll store calls state =
        (StoreCall.answers (calls.map Prod.snd) records, after) ∧
      holds after (StoreCall.last (calls.map Prod.snd) records) := by
  induction calls generalizing state records with
  | nil => exact ⟨state, rfl, held⟩
  | cons p rest ih =>
    obtain ⟨handle, c⟩ := p
    obtain ⟨⟨middle, answered, holding⟩, later⟩ :=
      Store.performSimulated (simulate _ List.mem_cons_self) held (ordered _ List.mem_cons_self) can
    obtain ⟨after, run, holding⟩ := ih (fun q inside => simulate q (List.mem_cons_of_mem _ inside))
      (fun q inside => ordered q (List.mem_cons_of_mem _ inside)) holding later
    refine ⟨after, ?_, holding⟩
    simp only [performAll, bind, StateT.bind, answered, run]
    rfl

end

/-- Calls through handles on one file, missing or blank at first, answer as they do before the
store in memory, and the file then reads as the records in memory. Each call changes no more than
it names, and a rule saved again takes the place of the old one. -/
theorem Store.fileRefinesMemory {σ : Type} {fs : FileSystem (StateM σ)} {text : σ → Option String}
    {start : σ} {calls : List (String × StoreCall)} (handles : ∀ p ∈ calls, fs.Keeps p.1 text)
    (blank : ∀ held, text start = some held → Text.trim held = "")
    (ordered : ∀ p ∈ calls, p.2.Ordered)
    (trips : ∀ w ∈ StoreCall.written (calls.map Prod.snd) .empty, w.RoundTrips) :
    ∃ answers after final,
      performAll (Store.file fs) calls start = (answers, after) ∧
      performAll (fun _ => (Store.memory : Store (StateM Records))) calls .empty =
        (answers, final) ∧
      Records.ofText? (text after) = .ok final ∧
      StoreCall.Run .empty (calls.map Prod.snd) answers final ∧
      ∀ r : Rule, Rule.ofJson? r.toJson = some r := by
  have read : Records.ofText? (text start) = .ok .empty := by
    cases held : text start with
    | none => rfl
    | some content => exact if_pos (blank content held)
  obtain ⟨after, filed, holding⟩ :=
    performAllSimulated (Store.file fs) (fun p inside => fileSimulates (handles p inside)) ordered
      read trips
  obtain ⟨final, kept, rfl⟩ :=
    performAllSimulated (fun _ => memory) (fun _ _ => memorySimulates) ordered rfl
      fun _ _ => trivial
  exact ⟨_, after, _, filed, kept, holding, StoreCall.runs _ _, Rule.ofJsonToJson⟩

namespace Sample

def stored (value : String) (isValid : Bool) (message : Option String) : StoreCall :=
  .saveRule ⟨"low", "paid", .greater, value, isValid, message⟩

/-- Calls that save one rule twice, with another rule and a schema between. -/
def storeCalls : List (String × StoreCall) :=
  [stored "1" false none, .saveRule ⟨"open", "status", .notEqual, "paid", true, none⟩,
    .upsertSchema "invoice" (.object [("type", .string "object")]), stored "2" true (some ""),
    .schema "invoice", .rules].map fun c => ("rules.json", c)

end Sample

open Sample in
theorem Store.fileRefinesMemoryTwice :
    (performAll (Store.file .inMemory) storeCalls [("rules.json", " \n")]).1.getLast? =
      some (.listed (.ok [⟨"low", "paid", .greater, "2", true, some ""⟩,
        ⟨"open", "status", .notEqual, "paid", true, none⟩])) := by
  have handles : ∀ p ∈ storeCalls,
      FileSystem.inMemory.Keeps p.1 fun files => files.get? "rules.json" := by
    intro p inside
    obtain ⟨c, _, rfl⟩ := List.mem_map.mp inside
    have plain : Files.isPlain "rules.json" = true := by decide +kernel
    exact FileSystem.inMemoryKeeps plain
  have blank : ∀ held, Keyed.get? [("rules.json", " \n")] "rules.json" = some held →
      Text.trim held = "" := by
    intro held found
    cases found
    decide +kernel
  have ordered : ∀ p ∈ storeCalls, p.2.Ordered := by
    simp [storeCalls, stored, StoreCall.Ordered, Json.Ordered, Json.OrderedMembers,
      Keyed.Ordered, Keyed.keys]
  have trips : ∀ w ∈ StoreCall.written (storeCalls.map Prod.snd) .empty, w.RoundTrips := by
    decide +kernel
  obtain ⟨answers, after, final, filed, kept, _⟩ := fileRefinesMemory handles blank ordered trips
  rw [filed, ← congrArg Prod.fst kept]
  rfl

end RuleSchema
