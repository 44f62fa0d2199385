import RuleSchema.CommandLine.Run
import RuleSchema.Proofs.Session.Collection
/-! What a session prints. Its lines are the texts of its entries and the closing count, and they
come behind what was printed before. -/
namespace RuleSchema

/-- A part of the state that no operation on files changes. -/
structure FileSystem.Spares {σ α : Type} (fs : FileSystem (StateM σ)) (view : σ → α) : Prop where
  there : ∀ name state, view (fs.exists? name state).2 = view state
  read : ∀ name state, view (fs.read name state).2 = view state
  write : ∀ name text state, view (fs.write name text state).2 = view state
  rename : ∀ old new state, view (fs.rename old new state).2 = view state

/-- A part of the state that no call of a session changes. -/
structure Store.Spares {σ α : Type} (store : Store (StateM σ)) (view : σ → α) : Prop where
  saving : ∀ r state, view (store.saveRule r state).2 = view state
  storing : ∀ name content state, view (store.upsertSchema name content state).2 = view state

section
variable {σ α : Type} {view : σ → α}

theorem Store.readFileSpares {fs : FileSystem (StateM σ)} (spares : fs.Spares view) (path : String)
    (state : σ) : view (readFile fs path state).2 = view state := by
  have looked := spares.there path state
  rw [readFileSteps]
  cases seen : fs.exists? path state with
  | mk there between =>
    rw [seen] at looked
    cases there with
    | false => exact looked
    | true =>
      have read := spares.read path between
      dsimp only
      cases result : fs.read path between with
      | mk answer after =>
        rw [result] at read
        cases answer <;> exact read.trans looked

theorem Store.writeFileSpares {fs : FileSystem (StateM σ)} (spares : fs.Spares view) (path : String)
    (r : Records) (state : σ) : view (writeFile fs path r state).2 = view state := by
  have wrote := spares.write (siblingPath path) r.encode state
  rw [writeFileSteps]
  cases written : fs.write (siblingPath path) r.encode state with
  | mk answer between =>
    rw [written] at wrote
    cases answer with
    | error detail => exact wrote
    | ok =>
      have moved := spares.rename (siblingPath path) path between
      dsimp only
      cases result : fs.rename (siblingPath path) path between with
      | mk answer after =>
        rw [result] at moved
        cases answer <;> exact moved.trans wrote

theorem Store.changeFileSpares {fs : FileSystem (StateM σ)} (spares : fs.Spares view)
    (path : String) (change : Records → Records) (state : σ) :
    view (changeFile fs path change state).2 = view state := by
  have looked := readFileSpares spares path state
  rw [changeFileSteps]
  cases read : readFile fs path state with
  | mk result between =>
    rw [read] at looked
    cases result with
    | error e => exact looked
    | ok r => exact (writeFileSpares spares path (change r) between).trans looked

theorem Store.fileSpares {fs : FileSystem (StateM σ)} (spares : fs.Spares view) (path : String) :
    (file fs path).Spares view where
  saving _ state := changeFileSpares spares path _ state
  storing _ _ state := changeFileSpares spares path _ state

namespace Session
variable {store : Store (StateM σ)} {document : Json} {s next last : Session} {state after : σ}

theorem Entered.spares (spares : store.Spares view) {l : String × String} {entry : Entry}
    (entered : Entered store document s state l entry next after) : view after = view state := by
  cases entered with
  | malformed _ => rfl
  | inadmissible _ _ => rfl
  | @refused p r failure _ read judged saving =>
    have kept := spares.saving r state
    rw [saving] at kept
    exact kept
  | @accepted p r saved middle read judged saving =>
    have kept := spares.saving r state
    rw [saving] at kept
    exact (spares.storing _ _ middle).trans kept

theorem Enters.spares (spares : store.Spares view) {lines : List (String × String)}
    {entries : List Entry} (enters : Enters store document s state lines entries last after) :
    view after = view state := by
  induction enters with
  | nil => rfl
  | cons first _ ih => exact ih.trans (first.spares spares)

end Session

end

namespace Session

section
variable {m : Type → Type} [Monad m] [LawfulMonad m] (s : Session) (document : Json)
  (records : Records)

theorem adoptMemory (fresh : String) (p : Proposal) :
    s.adopt (.memory : Store (StateT Records m)) fresh p document records =
      pure (s.adopt (.memory : Store (StateM Records)) fresh p document records) := by
  unfold adopt
  cases s.addRule fresh p document with
  | error e => rfl
  | ok r =>
    simp only [bind, StateT.bind, Store.memory, publish, pure_bind]
    exact pure_bind ((), _) _

theorem takeLineMemory (l : String × String) :
    s.takeLine (.memory : Store (StateT Records m)) l.1 document l.2 records =
      pure (s.takeLine (.memory : Store (StateM Records)) l.1 document l.2 records) := by
  unfold takeLine
  split
  · rfl
  · cases InputLine.parse l.2 with
    | error e => rfl
    | ok input => cases input with
      | done => rfl
      | proposal p =>
        simp only [bind, StateT.bind]
        rw [adoptMemory, pure_bind]
        cases s.adopt (.memory : Store (StateM Records)) l.1 p document records with
        | mk turn after =>
          obtain ⟨answer, next⟩ := turn
          cases answer <;> rfl

theorem collectMemory (lines : List (String × String)) :
    s.collect (.memory : Store (StateT Records m)) document lines records =
      pure (s.collect (.memory : Store (StateM Records)) document lines records) := by
  induction lines generalizing s records with
  | nil => rfl
  | cons l rest ih =>
    rw [collectCons, collect]
    simp only [bind, StateT.bind]
    rw [takeLineMemory, pure_bind]
    cases s.takeLine (.memory : Store (StateM Records)) l.1 document l.2 records with
    | mk result middle => cases result with
      | skipped => exact ih s middle
      | finished => rfl
      | entered entry next =>
        dsimp only
        rw [StateT.bind, ih, pure_bind]
        rfl

end

end Session

namespace CommandLine

theorem Host.inMemorySpares : Host.inMemory.files.Spares Workspace.printed where
  there _ _ := rfl
  read _ _ := rfl
  write _ _ _ := rfl
  rename _ _ _ := rfl

section
variable {α β : Type} {start w : Workspace}

theorem bindRan {x : ExceptT Failure (StateM Workspace) α}
    {f : α → ExceptT Failure (StateM Workspace) β} {v : α} (ran : x start = (.ok v, w)) :
    (x >>= f) start = f v w := by
  simp only [bind, ExceptT.bind, ExceptT.mk, StateT.bind, ran]
  rfl

theorem liftRan {x : StateM Workspace α} {v : α} (ran : x start = (v, w)) :
    (x : ExceptT Failure (StateM Workspace) α) start = (.ok v, w) :=
  congrArg (fun ends : α × Workspace => (Except.ok ends.1, ends.2)) ran

end

def Workspace.say (w : Workspace) (texts : List String) : Workspace :=
  { w with printed := w.printed ++ String.join (texts.map (· ++ "\n")) }

theorem Workspace.sayAppend (w : Workspace) (texts more : List String) :
    (w.say texts).say more = w.say (texts ++ more) := by
  simp [say, String.append_assoc]

theorem sayOne (text : String) (w : Workspace) :
    (Host.inMemory.printLine text : ExceptT Failure (StateM Workspace) Unit) w =
      (.ok (), w.say [text]) := by
  have said : w.say [text] = ⟨w.files, w.printed ++ (text ++ "\n")⟩ := by simp [Workspace.say]
  rw [said]
  rfl

theorem sayAll {α : Type} (text : α → String) (items : List α) (w : Workspace) :
    (items.forM fun a => (Host.inMemory.printLine (text a) : ExceptT Failure (StateM Workspace)
      Unit)) w = (.ok (), w.say (items.map text)) := by
  induction items generalizing w with
  | nil =>
    have silent : w.say [] = w := by simp [Workspace.say]
    exact congrArg (Prod.mk _) silent.symm
  | cons a rest ih =>
    refine (bindRan (sayOne (text a) w)).trans ?_
    rw [ih, Workspace.sayAppend]
    rfl

section
variable {config : Config} {a : SessionArguments} {lines : List (String × String)}
  {start w : Workspace} {s : Session} {document : Json} {entries : List Session.Entry}
  {last : Session}

theorem sessionOnFile {path : String} {after : Workspace}
    (opened : openSession Host.inMemory config a start = (.ok (s, document), w))
    (stored : a.repository = some path)
    (collected : s.collect (Store.file Host.inMemory.files path) document lines w =
      ((entries, last), after)) :
    session Host.inMemory config a lines start = (.ok allWell,
      after.say (entries.map Session.Entry.text ++ [Session.closingText s.rules.length last])) := by
  rw [session, bindRan opened]
  dsimp only
  rw [stored]
  dsimp only
  rw [bindRan (liftRan collected), bindRan (sayAll _ _ _), bindRan (sayOne _ _),
    Workspace.sayAppend]
  rfl

theorem sessionInMemory {records : Records}
    (opened : openSession Host.inMemory config a start = (.ok (s, document), w))
    (unstored : a.repository = none)
    (collected : s.collect (Store.memory : Store (StateM Records)) document lines .empty =
      ((entries, last), records)) :
    session Host.inMemory config a lines start = (.ok allWell,
      w.say (entries.map Session.Entry.text ++ [Session.closingText s.rules.length last])) := by
  have ran : (s.collect (Store.memory : Store (StateT Records (StateM Workspace))) document
      lines).run' Records.empty w = ((entries, last), w) := by
    rw [StateT.run', Session.collectMemory, collected]
    rfl
  rw [session, bindRan opened]
  dsimp only
  rw [unstored]
  dsimp only
  rw [bindRan (liftRan ran), bindRan (sayAll _ _ _), bindRan (sayOne _ _), Workspace.sayAppend]
  rfl

/-- Nothing is printed but the entries and their count, and no file changes but by the store. -/
theorem sessionPrints
    (opened : openSession Host.inMemory config a start = (.ok (s, document), w)) :
    ∃ entries last files,
      (match a.repository with
        | some path => s.collect (.file Host.inMemory.files path) document lines w =
            ((entries, last), ⟨files, w.printed⟩)
        | none => files = w.files ∧ ∃ records : Records,
            s.collect (.memory : Store (StateM Records)) document lines .empty =
              ((entries, last), records)) ∧
      session Host.inMemory config a lines start = (.ok allWell,
        (⟨files, w.printed⟩ : Workspace).say (entries.map Session.Entry.text ++
          [(entries.countP Session.Entry.isAccepted).repr ++ " rule(s) committed"])) := by
  cases stored : a.repository with
  | some path =>
    obtain ⟨⟨⟨entries, last⟩, after⟩, collected⟩ :
        ∃ ends, s.collect (.file Host.inMemory.files path) document lines w = ends := ⟨_, rfl⟩
    have enters := Session.collectEnters.mp collected
    have printed := enters.spares (Store.fileSpares Host.inMemorySpares path)
    have same : after = ⟨after.files, w.printed⟩ := by rw [← printed]
    refine ⟨entries, last, after.files, collected.trans (by rw [← same]), ?_⟩
    rw [sessionOnFile opened stored collected, enters.account.closing, ← same]
  | none =>
    obtain ⟨⟨⟨entries, last⟩, records⟩, collected⟩ :
        ∃ ends, s.collect (.memory : Store (StateM Records)) document lines .empty = ends :=
      ⟨_, rfl⟩
    refine ⟨entries, last, w.files, ⟨rfl, records, collected⟩, ?_⟩
    rw [sessionInMemory opened stored collected,
      (Session.collectEnters.mp collected).account.closing]

end

end CommandLine

namespace Session
open CommandLine

/-- The lines before the closing one that are not blank make one entry each, in their order, and
the others count for nothing. The session ends with the accepted rules behind those it had, so the
closing count is that of the accepted entries. Behind a rejected line the run goes on from the
session before it, and is the run of the other lines, unless the store refused the rule and its
calls tell what that has left; on a disk nothing is left that later lines see. What is printed are
the entries and the count. -/
theorem collectAccounts (document : Json) (s : Session) (lines : List (String × String)) :
    (∀ {σ : Type} (store : Store (StateM σ)) (state : σ), ∃ entries last after,
      s.collect store document lines state = ((entries, last), after) ∧
      Enters store document s state (handled lines) entries last after ∧
      Account s (handled lines) entries last ∧
      ∀ early why late, entries = early ++ .rejected why :: late →
        ∃ before l later t here middle, handled lines = before ++ l :: later ∧
          Enters store document s state before early t here ∧
          Entered store document t here l (.rejected why) t middle ∧
          Enters store document t middle later late last after ∧
          (middle = here ∧
              s.collect store document (before ++ later) state = ((early ++ late, last), after) ∨
            ∃ r failure, store.saveRule r here = (.error failure, middle) ∧
              ∀ alike, store.Blind alike → alike middle here → ∃ final,
                s.collect store document (before ++ later) state = ((early ++ late, last), final) ∧
                alike after final)) ∧
    (∀ (path : String) (t next last : Session) (here middle after : Disk)
        (l : String × String) (why : Rejection) (later : List (String × String))
        (late : List Entry),
      Entered (.file .onDisk path) document t here l (.rejected why) next middle →
      Enters (.file .onDisk path) document next middle later late last after →
        ∃ final, Enters (.file .onDisk path) document t ⟨here.files, middle.fate⟩ later late last
          final ∧ Store.Same path after final) ∧
    (∀ {m : Type → Type} [Monad m] [LawfulMonad m] (store : Store m)
        (before later : List (String × String)) (closing : String × String),
      InputLine.isClosing closing.2 = true → lines = before ++ closing :: later →
        s.collect store document lines = s.collect store document before) ∧
    ∀ (config : Config) (a : SessionArguments) (start w : Workspace),
      openSession Host.inMemory config a start = (.ok (s, document), w) →
        ∃ entries last files,
          (match a.repository with
            | some path => s.collect (.file Host.inMemory.files path) document lines w =
                ((entries, last), ⟨files, w.printed⟩)
            | none => files = w.files ∧ ∃ records : Records,
                s.collect (.memory : Store (StateM Records)) document lines .empty =
                  ((entries, last), records)) ∧
          CommandLine.session Host.inMemory config a lines start = (.ok allWell,
            (⟨files, w.printed⟩ : Workspace).say (entries.map Entry.text ++
              [(entries.countP Entry.isAccepted).repr ++ " rule(s) committed"])) := by
  refine ⟨fun {σ} store state => ?_, ?_, ?_, fun config a start w opened => sessionPrints opened⟩
  · obtain ⟨⟨⟨entries, last⟩, after⟩, collected⟩ :
        ∃ ends, s.collect store document lines state = ends := ⟨_, rfl⟩
    have enters := collectEnters.mp collected
    refine ⟨entries, last, after, collected, enters, enters.account, ?_⟩
    rintro early why late rfl
    exact enters.around fun l inside => (handledCounts inside).1
  · intro path t next last here middle after l why later late rejected enters
    exact enters.pastRejected rejected
  · rintro m _ _ store before later closing ends rfl
    rw [collectHandled, handledClosing before later ends, ← collectHandled]

end Session

namespace Sample

def inputLines : List (String × String) :=
  [("a", "totals.paid > 10"), ("b", "totals.paid"), ("c", "totals.paid < 5"), ("d", " "),
    ("e", "status == paid"), ("f", "status == paid"), ("g", " DONE "), ("h", "totals.due > 1")]

def invoiceFiles : CommandLine.Workspace := ⟨[("invoice.json", invoice.compact)], ""⟩

def invoiceArguments : CommandLine.SessionArguments :=
  ⟨⟨some "invoice.json", none⟩, none, none, false⟩

end Sample

namespace Session
open CommandLine

open Sample in
theorem collectAccountsInvoice :
    (∃ entries last after, invoiceSession.collect Sample.store invoice inputLines .empty =
        ((entries, last), after) ∧
      entries.map Entry.isAccepted = [true, false, false, true, true] ∧
      last.rules = entries.filterMap Entry.rule? ∧
      closingText 0 last = "3 rule(s) committed") ∧
    (∃ l why t here middle later late last after final,
      invoiceSession.collect diskStore invoice (inputLines.take 3) (failing 2) =
        ((.rejected why :: late, last), after) ∧
      Entered diskStore invoice t here l (.rejected why) t middle ∧
      Enters diskStore invoice t ⟨here.files, middle.fate⟩ later late last final ∧
      Store.Same "rules.json" after final) ∧
    invoiceSession.collect diskStore invoice inputLines =
      invoiceSession.collect diskStore invoice (inputLines.take 6) ∧
    ∃ (entries : List Entry) (w : Workspace),
      CommandLine.session Host.inMemory .standard invoiceArguments inputLines invoiceFiles =
        (.ok allWell, w.say (entries.map Entry.text ++
          [(entries.countP Entry.isAccepted).repr ++ " rule(s) committed"])) := by
  obtain ⟨run, _, closes, _⟩ := collectAccounts invoice invoiceSession inputLines
  refine ⟨?_, ?_, ?_, ?_⟩
  · obtain ⟨entries, last, after, collected, _, account, _⟩ := run Sample.store .empty
    have kinds : (invoiceSession.collect Sample.store invoice inputLines .empty).1.1.map
        Entry.isAccepted = [true, false, false, true, true] := by
      decide +kernel
    rw [collected] at kinds
    have count : entries.countP Entry.isAccepted = 3 := by
      have counted := List.countP_map (p := id) (f := Entry.isAccepted) (l := entries)
      rw [kinds] at counted
      exact counted.symm
    refine ⟨entries, last, after, collected, kinds, ?_, ?_⟩
    · rw [account.grown]
      rfl
    · exact account.closing.trans (by rw [count]; rfl)
  · obtain ⟨run, pastRejected, _⟩ :=
      collectAccounts invoice invoiceSession (inputLines.take 3)
    obtain ⟨entries, last, after, collected, _, _, around⟩ := run diskStore (failing 2)
    have first : (invoiceSession.collect diskStore invoice (inputLines.take 3)
        (failing 2)).1.1.head?.map Entry.isAccepted = some false := by
      decide +kernel
    rw [collected] at first
    cases entries with
    | nil => cases first
    | cons entry late => cases entry with
      | accepted r => cases first
      | rejected why =>
        obtain ⟨before, l, later, t, here, middle, _, _, rejected, enters, _⟩ :=
          around [] why late rfl
        obtain ⟨final, again, same⟩ :=
          pastRejected "rules.json" _ _ _ _ _ _ _ _ _ _ rejected enters
        exact ⟨l, why, t, here, middle, later, late, last, after, final, collected, rejected,
          again, same⟩
  · exact closes diskStore (inputLines.take 6) _ ("g", " DONE ") (by decide) rfl
  · cases opened : openSession Host.inMemory .standard invoiceArguments invoiceFiles with
    | mk result w =>
      have fine : (openSession Host.inMemory .standard invoiceArguments invoiceFiles).1.isOk =
          true := by
        decide +kernel
      rw [opened] at fine
      cases result with
      | error e => cases fine
      | ok pair =>
        obtain ⟨s, document⟩ := pair
        obtain ⟨entries, last, files, _, printed⟩ :=
          (collectAccounts document s inputLines).2.2.2 .standard invoiceArguments _ w opened
        exact ⟨entries, ⟨files, w.printed⟩, printed⟩

end Session

end RuleSchema
