import RuleSchema.Proofs.Store.Simulation
/-! Files on a disk where any operation may fail, a write even after it has left part of its text.
Only the move of the finished text changes the file of a store, so whatever fails before it, and a
move that fails itself, leaves all that the store answers from. -/
namespace RuleSchema

/-- How an operation fails. A write that has begun leaves some text behind. -/
structure Mishap where
  detail : String
  left : Option String
  deriving DecidableEq, Repr

/-- Files, and what the operations to come meet, in their order; after that they meet nothing. -/
structure Disk where
  files : Files
  fate : List (Option Mishap)
  deriving DecidableEq, Repr

namespace Disk

/-- An operation that goes as it does in memory, or otherwise if it meets a mishap. -/
def operate {α : Type} (usual : StateM Files α) (failed : Mishap → StateM Files α) :
    StateM Disk α := fun disk =>
  let ends := match disk.fate.head?.join with
    | some mishap => failed mishap disk.files
    | none => usual disk.files
  (ends.1, ⟨ends.2, disk.fate.tail⟩)

/-- Which way an operation goes does not depend on the files. -/
theorem operateEnds {α : Type} (usual : StateM Files α) (failed : Mishap → StateM Files α)
    (fate : List (Option Mishap)) :
    (∀ files, operate usual failed ⟨files, fate⟩ =
      ((usual files).1, ⟨(usual files).2, fate.tail⟩)) ∨
    ∃ mishap, ∀ files, operate usual failed ⟨files, fate⟩ =
      ((failed mishap files).1, ⟨(failed mishap files).2, fate.tail⟩) := by
  cases met : fate.head?.join with
  | none => exact .inl fun files => by simp only [operate, met]
  | some mishap => exact .inr ⟨mishap, fun files => by simp only [operate, met]⟩

end Disk

/-- The file system of a disk. A file that cannot be looked for is taken to be missing, and a move
that fails moves nothing. -/
def FileSystem.onDisk : FileSystem (StateM Disk) where
  exists? name := Disk.operate (inMemory.exists? name) fun _ => pure false
  read name := Disk.operate (inMemory.read name) fun mishap => pure (.error mishap.detail)
  write name text := Disk.operate (inMemory.write name text) fun mishap files =>
    (.error mishap.detail, (mishap.left.map fun part => files.insert name part).getD files)
  rename old new := Disk.operate (inMemory.rename old new) fun mishap => pure (.error mishap.detail)

theorem Files.getErase (files : Files) {name other : String} (differs : other ≠ name) :
    Keyed.get? (erase files name) other = Keyed.get? files other := by
  induction files with
  | nil => rfl
  | cons f rest ih =>
    obtain ⟨first, text⟩ := f
    by_cases erased : first = name
    · have skipped : first ≠ other := fun same => differs (same.symm.trans erased)
      have gone : erase ((first, text) :: rest) name = erase rest name := by simp [erase, erased]
      rw [gone, ih, Keyed.get?, if_neg skipped]
    · have kept : erase ((first, text) :: rest) name = (first, text) :: erase rest name := by
        simp [erase, erased]
      rw [kept, Keyed.get?, Keyed.get?, ih]

namespace FileSystem
variable (fate : List (Option Mishap))

theorem lookEnds (name : String) : ∃ sees : Option String → Bool, ∀ files,
    onDisk.exists? name ⟨files, fate⟩ = (sees (files.get? name), ⟨files, fate.tail⟩) := by
  rcases Disk.operateEnds (inMemory.exists? name) (fun _ => pure false) fate with
    fine | ⟨_, broken⟩
  · exact ⟨Option.isSome, fine⟩
  · exact ⟨fun _ => false, broken⟩

theorem readEnds (name : String) : ∃ reads : Option String → Except String String, ∀ files,
    onDisk.read name ⟨files, fate⟩ = (reads (files.get? name), ⟨files, fate.tail⟩) := by
  rcases Disk.operateEnds (inMemory.read name) (fun mishap => pure (.error mishap.detail)) fate with
    fine | ⟨mishap, broken⟩
  · refine ⟨fun held => held.elim (.error (Files.notFound name)) .ok, fun files => ?_⟩
    refine (fine files).trans ?_
    simp only [inMemory]
    cases files.get? name <;> rfl
  · exact ⟨fun _ => .error mishap.detail, broken⟩

/-- Whether a write goes well does not depend on the files. -/
theorem writeEnds (name text : String) : ∃ result, ∀ files, ∃ after,
    onDisk.write name text ⟨files, fate⟩ = (result, ⟨after, fate.tail⟩) ∧
      (result = .ok () → after.get? name = some text) ∧
      ∀ other, other ≠ name → after.get? other = files.get? other := by
  have placed (files : Files) (part : String) : ∀ other, other ≠ name →
      (files.insert name part).get? other = files.get? other := by
    intro other differs
    rw [Keyed.getInsert, if_neg differs.symm]
  rcases Disk.operateEnds (inMemory.write name text) (fun mishap files =>
    (.error mishap.detail, (mishap.left.map fun part => files.insert name part).getD files)) fate
    with fine | ⟨mishap, broken⟩
  · cases plain : Files.isPlain name with
    | true =>
      have usual (files : Files) :
          inMemory.write name text files = (.ok (), files.insert name text) := by
        simp only [inMemory, plain, if_true]
      refine ⟨.ok (), fun files => ⟨files.insert name text, ?_, fun _ => ?_, placed files text⟩⟩
      · exact (fine files).trans (by rw [usual])
      · rw [Keyed.getInsert, if_pos rfl]
    | false =>
      have usual (files : Files) :
          inMemory.write name text files = (.error (Files.notFound name), files) := by
        simp only [inMemory, plain, Bool.false_eq_true, if_false]
      refine ⟨.error (Files.notFound name), fun files => ⟨files, ?_, ?_, fun _ _ => rfl⟩⟩
      · exact (fine files).trans (by rw [usual])
      · intro done
        cases done
  · refine ⟨_, fun files => ⟨_, broken files, ?_, ?_⟩⟩
    · intro done
      cases done
    · cases mishap.left with
      | none => exact fun _ _ => rfl
      | some part => exact placed files part

theorem renameEnds (old new : String) :
    (∃ detail, ∀ files, onDisk.rename old new ⟨files, fate⟩ =
      (.error detail, ⟨files, fate.tail⟩)) ∨
    ∀ files text, files.get? old = some text → ∃ after,
      onDisk.rename old new ⟨files, fate⟩ = (.ok (), ⟨after, fate.tail⟩) ∧
        after.get? new = some text ∧
        ∀ other, other ≠ old → other ≠ new → after.get? other = files.get? other := by
  rcases Disk.operateEnds (inMemory.rename old new) (fun mishap => pure (.error mishap.detail)) fate
    with fine | ⟨mishap, broken⟩
  · refine .inr fun files text found => ?_
    replace fine := fine files
    simp only [inMemory, found] at fine
    refine ⟨_, fine, ?_, fun other source target => ?_⟩
    · rw [Keyed.getInsert, if_pos rfl]
    · rw [Keyed.getInsert, if_neg target.symm, Files.getErase _ source]
  · exact .inl ⟨mishap.detail, broken⟩

end FileSystem

namespace Store

theorem siblingDiffers (path : String) : siblingPath path ≠ path := by
  intro same
  have lengths := congrArg String.length same
  simp [siblingPath] at lengths

/-- What the file under a name holds after an attempt to give it a new text: that text if the
attempt came to its end, else what it held. Of other files only the one beside it may have
changed. -/
structure Attempt (path text : String) (before : Files) (result : Except StoreError Unit)
    (after : Files) : Prop where
  others : ∀ name, name ≠ path → name ≠ siblingPath path → after.get? name = before.get? name
  failed : ∀ e, result = .error e → after.get? path = before.get? path
  done : result = .ok () → after.get? path = some text

section
variable {σ : Type} (fs : FileSystem (StateM σ)) (path : String) (state : σ)

theorem readFileSteps : readFile fs path state = match fs.exists? path state with
    | (false, looked) => (.ok .empty, looked)
    | (true, looked) => match fs.read path looked with
      | (.ok text, after) => (Records.decode text, after)
      | (.error detail, after) => (.error (.io detail), after) := by
  simp only [readFile, bind, StateT.bind]
  cases fs.exists? path state with
  | mk there looked => cases there with
    | false => rfl
    | true =>
      simp only [if_true, StateT.bind]
      cases fs.read path looked with
      | mk result after => cases result <;> rfl

theorem readFileOrdered {r : Records} (read : (readFile fs path state).1 = .ok r) : r.Ordered := by
  rw [readFileSteps] at read
  split at read
  · cases read
    exact Records.emptyOrdered
  · split at read
    · dsimp only at read
      exact Records.decodeOrdered read
    · cases read

theorem writeFileSteps (r : Records) : writeFile fs path r state =
    match fs.write (siblingPath path) r.encode state with
    | (.error detail, after) => (.error (.io detail), after)
    | (.ok (), written) => match fs.rename (siblingPath path) path written with
      | (.error detail, after) => (.error (.io detail), after)
      | (.ok (), after) => (.ok (), after) := by
  simp only [writeFile, bind, StateT.bind]
  cases fs.write (siblingPath path) r.encode state with
  | mk result written => cases result with
    | error detail => rfl
    | ok =>
      simp only [StateT.bind]
      cases fs.rename (siblingPath path) path written with
      | mk result after => cases result <;> rfl

theorem changeFileSteps (change : Records → Records) : changeFile fs path change state =
    match readFile fs path state with
    | (.error e, after) => (.error e, after)
    | (.ok r, looked) => writeFile fs path (change r) looked := by
  simp only [changeFile, bind, StateT.bind]
  cases readFile fs path state with
  | mk result looked => cases result <;> rfl

end

section
variable (path : String) (fate : List (Option Mishap))

/-- What reading comes to if a file was seen and read so, and what later operations meet. -/
def readTurn : Bool → Except String String → Except StoreError Records × List (Option Mishap)
  | false, _ => (.ok .empty, fate.tail)
  | true, .ok text => (Records.decode text, fate.tail.tail)
  | true, .error detail => (.error (.io detail), fate.tail.tail)

/-- What reading gives depends on what the file holds and on nothing else on the disk. -/
theorem readFileEnds :
    ∃ reads : Option String → Except StoreError Records × List (Option Mishap), ∀ files,
      readFile .onDisk path ⟨files, fate⟩ =
        ((reads (files.get? path)).1, ⟨files, (reads (files.get? path)).2⟩) := by
  obtain ⟨sees, looked⟩ := FileSystem.lookEnds fate path
  obtain ⟨reads, read⟩ := FileSystem.readEnds fate.tail path
  refine ⟨fun held => readTurn fate (sees held) (reads held), fun files => ?_⟩
  rw [readFileSteps, looked]
  replace read := read files
  generalize files.get? path = held at read ⊢
  dsimp only
  cases sees held with
  | false => rfl
  | true =>
    dsimp only
    rw [read]
    cases reads held <;> rfl

variable (files : Files)

theorem readHeld {text : String} (held : files.get? path = some text) :
    (readFile .onDisk path ⟨files, []⟩).1 = Records.decode text := by
  have there : FileSystem.onDisk.exists? path ⟨files, []⟩ =
      ((files.get? path).isSome, ⟨files, []⟩) := rfl
  have read : FileSystem.onDisk.read path ⟨files, []⟩ =
      ((FileSystem.inMemory.read path files).1, ⟨(FileSystem.inMemory.read path files).2, []⟩) :=
    rfl
  rw [readFileSteps, there, held]
  simp only [Option.isSome_some, read, FileSystem.inMemory, held]

theorem writeFileEnds (r : Records) : ∃ result later, ∀ files, ∃ after,
    writeFile .onDisk path r ⟨files, fate⟩ = (result, ⟨after, later⟩) ∧
      Attempt path r.encode files result after := by
  have apart := siblingDiffers path
  obtain ⟨result, wrote⟩ := FileSystem.writeEnds fate (siblingPath path) r.encode
  cases result with
  | error detail =>
    refine ⟨.error (.io detail), fate.tail, fun files => ?_⟩
    obtain ⟨between, written, _, beside⟩ := wrote files
    rw [writeFileSteps, written]
    exact ⟨_, rfl, fun name _ other => beside name other, fun _ _ => beside path apart.symm, nofun⟩
  | ok =>
    rcases FileSystem.renameEnds fate.tail (siblingPath path) path with ⟨detail, unmoved⟩ | moves
    · refine ⟨.error (.io detail), fate.tail.tail, fun files => ?_⟩
      obtain ⟨between, written, _, beside⟩ := wrote files
      rw [writeFileSteps, written]
      dsimp only
      rw [unmoved]
      exact ⟨_, rfl, fun name _ other => beside name other, fun _ _ => beside path apart.symm,
        nofun⟩
    · refine ⟨.ok (), fate.tail.tail, fun files => ?_⟩
      obtain ⟨between, written, held, beside⟩ := wrote files
      obtain ⟨after, moved, target, others⟩ := moves between r.encode (held rfl)
      rw [writeFileSteps, written]
      dsimp only
      rw [moved]
      refine ⟨_, rfl, fun name own other => ?_, nofun, fun _ => target⟩
      exact (others name other own).trans (beside name other)

theorem changeFileEnds (change : Records → Records) : ∃ result after,
    changeFile .onDisk path change ⟨files, fate⟩ = (result, after) ∧
      ((∃ e, result = .error e ∧ after.files = files) ∨
        ∃ old, (readFile .onDisk path ⟨files, fate⟩).1 = .ok old ∧
          Attempt path (change old).encode files result after.files) := by
  obtain ⟨reads, read⟩ := readFileEnds path fate
  rw [changeFileSteps, read files]
  cases reads (files.get? path) with
  | mk result later => cases result with
    | error e => exact ⟨_, _, rfl, .inl ⟨e, rfl, rfl⟩⟩
    | ok old =>
      obtain ⟨result, final, wrote⟩ := writeFileEnds path later (change old)
      obtain ⟨after, written, attempt⟩ := wrote files
      exact ⟨result, ⟨after, final⟩, written, .inr ⟨old, rfl, attempt⟩⟩

end

section
variable {path : String} {before after : Disk} {change : Records → Records}

theorem changeFileFails {e : StoreError}
    (failed : changeFile .onDisk path change before = (.error e, after)) {name : String}
    (other : name ≠ siblingPath path) : after.files.get? name = before.files.get? name := by
  obtain ⟨result, final, ends, ⟨_, _, kept⟩ | ⟨_, _, attempt⟩⟩ :=
    changeFileEnds path before.fate before.files change
  · cases failed.symm.trans ends
    rw [kept]
  · cases failed.symm.trans ends
    by_cases own : name = path
    · exact own ▸ attempt.failed e rfl
    · exact attempt.others name own other

theorem changeFileDone (done : changeFile .onDisk path change before = (.ok (), after)) :
    ∃ old, (readFile .onDisk path before).1 = .ok old ∧
      after.files.get? path = some (change old).encode := by
  obtain ⟨result, final, ends, ⟨e, broken, _⟩ | ⟨old, read, attempt⟩⟩ :=
    changeFileEnds path before.fate before.files change
  · cases done.symm.trans ends
    cases broken
  · cases done.symm.trans ends
    exact ⟨old, read, attempt.done rfl⟩

end

theorem fileSaveRule {σ : Type} (fs : FileSystem (StateM σ)) (path : String) (r : Rule)
    (state : σ) : (file fs path).saveRule r state =
      ((changeFile fs path (fun records => records.saveRule r) state).1.map fun () => r,
        (changeFile fs path (fun records => records.saveRule r) state).2) := rfl

theorem fileUpsertSchema {σ : Type} (fs : FileSystem (StateM σ)) (path name : String)
    (content : Json) (state : σ) : (file fs path).upsertSchema name content state =
      ((changeFile fs path (fun records => records.upsertSchema ⟨name, content⟩) state).1.map
          fun () => ⟨name, content⟩,
        (changeFile fs path (fun records => records.upsertSchema ⟨name, content⟩) state).2) := rfl

/-- A relation between states that the calls of a session neither tell apart nor break. -/
structure Blind {σ : Type} (store : Store (StateM σ)) (alike : σ → σ → Prop) : Prop where
  saving : ∀ {state other after r answer}, alike state other →
    store.saveRule r state = (answer, after) →
      ∃ final, store.saveRule r other = (answer, final) ∧ alike after final
  storing : ∀ {state other}, alike state other → ∀ name content,
    alike (store.upsertSchema name content state).2 (store.upsertSchema name content other).2

/-- Two disks where the file under a name holds the same and operations meet the same. -/
structure Same (path : String) (disk other : Disk) : Prop where
  fate : disk.fate = other.fate
  held : disk.files.get? path = other.files.get? path

theorem changeFileSame {path : String} {disk other : Disk} (same : Same path disk other)
    (change : Records → Records) :
    (changeFile .onDisk path change disk).1 = (changeFile .onDisk path change other).1 ∧
      Same path (changeFile .onDisk path change disk).2
        (changeFile .onDisk path change other).2 := by
  obtain ⟨files, fate⟩ := disk
  obtain ⟨others, _⟩ := other
  obtain ⟨rfl, held⟩ := same
  obtain ⟨reads, read⟩ := readFileEnds path fate
  rw [changeFileSteps, changeFileSteps, read, read]
  dsimp only at held
  rw [held]
  cases reads (Keyed.get? others path) with
  | mk result later => cases result with
    | error e => exact ⟨rfl, rfl, held⟩
    | ok old =>
      obtain ⟨result, final, wrote⟩ := writeFileEnds path later (change old)
      obtain ⟨after, written, attempt⟩ := wrote files
      obtain ⟨beside, besides, again⟩ := wrote others
      dsimp only
      rw [written, besides]
      refine ⟨rfl, rfl, ?_⟩
      cases result with
      | error e => exact ((attempt.failed e rfl).trans held).trans (again.failed e rfl).symm
      | ok => exact (attempt.done rfl).trans (again.done rfl).symm

theorem fileBlind (path : String) : (file .onDisk path).Blind (Same path) where
  saving := by
    intro disk other after r answer same saved
    obtain ⟨answers, kept⟩ := changeFileSame same fun records => records.saveRule r
    rw [fileSaveRule, answers] at saved
    cases saved
    exact ⟨_, rfl, kept⟩
  storing same name content :=
    (changeFileSame same fun records => records.upsertSchema ⟨name, content⟩).2

/-- A store answers every question in two states alike. -/
structure AnswersAlike {σ : Type} (store : Store (StateM σ)) (before after : σ) : Prop where
  rules : (store.rules after).1 = (store.rules before).1
  schemas : ∀ name, (store.schema? name after).1 = (store.schema? name before).1

theorem fileRules {σ : Type} (fs : FileSystem (StateM σ)) (path : String) (state : σ) :
    ((file fs path).rules state).1 = (readFile fs path state).1.map Records.rules := rfl

theorem fileSchema {σ : Type} (fs : FileSystem (StateM σ)) (path name : String) (state : σ) :
    ((file fs path).schema? name state).1 =
      (readFile fs path state).1.map fun r => r.schemas.get? name := rfl

/-- Whatever its questions meet, a store answers alike on two disks whose file holds the same. -/
theorem heldAlike {path : String} {before after : Files}
    (same : after.get? path = before.get? path) (fate : List (Option Mishap)) :
    (file .onDisk path).AnswersAlike ⟨before, fate⟩ ⟨after, fate⟩ := by
  obtain ⟨reads, read⟩ := readFileEnds path fate
  have alike : (readFile .onDisk path ⟨after, fate⟩).1 =
      (readFile .onDisk path ⟨before, fate⟩).1 := by
    rw [read, read, same]
  refine ⟨?_, fun name => ?_⟩
  · rw [fileRules, fileRules, alike]
  · rw [fileSchema, fileSchema, alike]

end Store

end RuleSchema
