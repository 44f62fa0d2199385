import RuleSchema.Proofs.Store.Encoding
import RuleSchema.Store.Memory
/-! Stores that do to records what the store in memory does. The file store does, on a file
system where nothing fails, as long as the texts it writes can be read again. -/
namespace RuleSchema

/-- A file system on which no operation on a file, or on the file beside it, fails. What the file
holds is given by `text`. -/
structure FileSystem.Keeps {σ : Type} (fs : FileSystem (StateM σ)) (path : String)
    (text : σ → Option String) : Prop where
  there : ∀ state, fs.exists? path state = ((text state).isSome, state)
  read : ∀ state held, text state = some held → fs.read path state = (.ok held, state)
  replace : ∀ state new, ∃ written moved,
    fs.write (Store.siblingPath path) new state = (.ok (), written) ∧
      fs.rename (Store.siblingPath path) path written = (.ok (), moved) ∧ text moved = some new

theorem FileSystem.inMemoryKeeps {path : String} (plain : Files.isPlain path = true) :
    FileSystem.inMemory.Keeps path fun files => files.get? path where
  there _ := rfl
  read files held found := by simp only [inMemory, found]
  replace files new := by
    have beside : Files.isPlain (Store.siblingPath path) = true := by
      obtain ⟨_, noSlash⟩ : path ≠ "" ∧ '/' ∉ path.toList := by simpa [Files.isPlain] using plain
      simp [Files.isPlain, Store.siblingPath, noSlash]
    generalize Store.siblingPath path = sibling at beside ⊢
    have found : (Keyed.insert sibling new files).get? sibling = some new := by
      rw [Keyed.getInsert, if_pos rfl]
    refine ⟨Keyed.insert sibling new files,
      Keyed.insert path new (Files.erase (Keyed.insert sibling new files) sibling), ?_, ?_, ?_⟩
    · simp only [inMemory, beside, if_true]
    · simp only [inMemory, found]
    · rw [Keyed.getInsert, if_pos rfl]

/-- A store that answers as the records it holds do, and takes up every change whose records can be
stored. -/
structure Store.Simulates {σ : Type} (store : Store (StateM σ)) (holds : σ → Records → Prop)
    (storable : Records → Prop) : Prop where
  rules : ∀ {state records}, holds state records →
    store.rules state = (.ok records.rules, state)
  schema : ∀ {state records}, holds state records → ∀ name,
    store.schema? name state = (.ok (records.schemas.get? name), state)
  saveRule : ∀ {state records}, holds state records → ∀ rule,
    storable (records.saveRule rule) → ∃ after,
      store.saveRule rule state = (.ok rule, after) ∧ holds after (records.saveRule rule)
  upsertSchema : ∀ {state records}, holds state records → ∀ record : SchemaRecord,
    record.content.Ordered → storable (records.upsertSchema record) → ∃ after,
      store.upsertSchema record.name record.content state = (.ok record, after) ∧
        holds after (records.upsertSchema record)

theorem Store.memorySimulates :
    (Store.memory : Store (StateM Records)).Simulates Eq fun _ => True where
  rules := by rintro _ records rfl; rfl
  schema := by rintro _ records rfl name; rfl
  saveRule := by rintro _ records rfl rule _; exact ⟨_, rfl, rfl⟩
  upsertSchema := by rintro _ records rfl record _ _; exact ⟨_, rfl, rfl⟩

namespace Records

theorem putRuleNew {r : Rule} {rules : List Rule} (unused : ∀ q ∈ rules, q.id ≠ r.id) :
    putRule r rules = rules ++ [r] := by
  induction rules with
  | nil => rfl
  | cons old rest ih =>
    rw [putRule, if_neg (unused old List.mem_cons_self),
      ih fun q inside => unused q (List.mem_cons_of_mem old inside)]
    rfl

theorem putRuleKnown {r old : Rule} {before after : List Rule} (same : old.id = r.id)
    (first : ∀ q ∈ before, q.id ≠ r.id) :
    putRule r (before ++ old :: after) = before ++ r :: after := by
  induction before with
  | nil => rw [List.nil_append, putRule, if_pos same, List.nil_append]
  | cons q rest ih =>
    rw [List.cons_append, putRule, if_neg (first q List.mem_cons_self),
      ih fun p inside => first p (List.mem_cons_of_mem q inside), List.cons_append]

theorem inPutRule {r : Rule} (rules : List Rule) : r ∈ putRule r rules := by
  induction rules with
  | nil => exact List.mem_singleton_self r
  | cons old rest ih =>
    unfold putRule
    split
    · exact List.mem_cons_self
    · exact List.mem_cons_of_mem old ih

theorem putRuleKeeps {r q : Rule} (other : q.id ≠ r.id) {rules : List Rule} (inside : q ∈ rules) :
    q ∈ putRule r rules := by
  induction rules with
  | nil => cases inside
  | cons old rest ih =>
    unfold putRule
    split
    · rename_i replaced
      rcases List.mem_cons.mp inside with rfl | later
      · exact absurd replaced other
      · exact List.mem_cons_of_mem r later
    · rcases List.mem_cons.mp inside with rfl | later
      · exact List.mem_cons_self
      · exact List.mem_cons_of_mem old (ih later)

/-- The records of a file that has this text, or is not there. -/
def ofText? : Option String → Except StoreError Records
  | some text => decode text
  | none => .ok empty

theorem ofTextOrdered {text : Option String} {r : Records} (read : ofText? text = .ok r) :
    r.Ordered := by
  cases text with
  | none =>
    cases read
    exact emptyOrdered
  | some text => exact decodeOrdered read

end Records

section
variable {σ : Type} {fs : FileSystem (StateM σ)} {path : String} {text : σ → Option String}

theorem Store.readFileEq (keeps : fs.Keeps path text) (state : σ) :
    readFile fs path state = (Records.ofText? (text state), state) := by
  unfold readFile
  simp only [bind, StateT.bind, keeps.there]
  cases held : text state with
  | none => rfl
  | some content =>
    simp only [Option.isSome_some, if_true, StateT.bind, keeps.read state content held]
    rfl

theorem Store.changeFileEq (keeps : fs.Keeps path text) {state : σ} {records : Records}
    (read : Records.ofText? (text state) = .ok records) (change : Records → Records)
    (ordered : (change records).Ordered) (trips : (change records).RoundTrips) :
    ∃ after, changeFile fs path change state = (.ok (), after) ∧
      Records.ofText? (text after) = .ok (change records) := by
  obtain ⟨written, moved, write, rename, holds⟩ := keeps.replace state (change records).encode
  refine ⟨moved, ?_, ?_⟩
  · simp only [changeFile, bind, StateT.bind, readFileEq keeps, read, writeFile, write, rename]
    rfl
  · rw [holds, Records.ofText?, Records.decodeEncode ordered trips]

theorem Store.fileSimulates (keeps : fs.Keeps path text) :
    (Store.file fs path).Simulates (fun state records => Records.ofText? (text state) = .ok records)
      Records.RoundTrips where
  rules := by
    intro state records read
    simp only [file, bind, StateT.bind, readFileEq keeps, read]
    rfl
  schema := by
    intro state records read name
    simp only [file, bind, StateT.bind, readFileEq keeps, read]
    rfl
  saveRule := by
    intro state records read rule trips
    have ordered := Records.saveRuleOrdered (Records.ofTextOrdered read) rule
    obtain ⟨after, changed, holds⟩ :=
      changeFileEq keeps read (fun records => records.saveRule rule) ordered trips
    refine ⟨after, ?_, holds⟩
    simp only [file, bind, StateT.bind, changed]
    rfl
  upsertSchema := by
    intro state records read record content trips
    have ordered := Records.upsertSchemaOrdered (Records.ofTextOrdered read) content
    obtain ⟨after, changed, holds⟩ :=
      changeFileEq keeps read (fun records => records.upsertSchema record) ordered trips
    refine ⟨after, ?_, holds⟩
    simp only [file, bind, StateT.bind, changed]
    rfl

end

end RuleSchema
