import RuleSchema.Proofs.Session.Failures
/-! Lines of a session. Every line that counts makes one entry, up to the line that ends the input,
and the session ends with the accepted rules behind those it had. -/
namespace RuleSchema

namespace InputLine

def isClosing (line : String) : Bool := lowerAscii (Text.trim line) == doneWord

theorem parseClosing (line : String) : parse line = .ok .done ↔ isClosing line = true := by
  unfold parse isClosing
  dsimp only
  split
  · rename_i closing
    simp [closing]
  · rename_i open_
    have other : (lowerAscii (Text.trim line) == doneWord) = false := by simpa using open_
    rw [other]
    split <;> simp

end InputLine

namespace Session

def Entry.rule? : Entry → Option Rule
  | .accepted r => some r
  | .rejected _ => none

/-- The lines that make entries: those before the closing one that are not blank. -/
def handled (lines : List (String × String)) : List (String × String) :=
  (lines.takeWhile fun l => !InputLine.isClosing l.2).filter fun l => Text.trim l.2 != ""

theorem handledCounts {lines : List (String × String)} {l : String × String}
    (inside : l ∈ handled lines) : Text.trim l.2 ≠ "" ∧ InputLine.parse l.2 ≠ .ok .done := by
  obtain ⟨early, counts⟩ := List.mem_filter.mp inside
  have open_ := List.all_eq_true.mp List.all_takeWhile l early
  constructor
  · simpa using counts
  · rw [ne_eq, InputLine.parseClosing]
    simpa using open_

theorem handledClosing (before later : List (String × String)) {closing : String × String}
    (ends : InputLine.isClosing closing.2 = true) :
    handled (before ++ closing :: later) = handled before := by
  have cut : ((before ++ closing :: later).takeWhile fun l => !InputLine.isClosing l.2) =
      before.takeWhile fun l => !InputLine.isClosing l.2 := by
    induction before with
    | nil => simp [ends]
    | cons l rest ih => simp only [List.cons_append, List.takeWhile_cons, ih]
  rw [handled, cut, handled]

section
variable {m : Type → Type} [Monad m] (store : Store m) (document : Json) (s : Session)

theorem takeLineBlank {l : String × String} (blank : Text.trim l.2 = "") :
    s.takeLine store l.1 document l.2 = pure .skipped := by
  rw [takeLine, if_pos blank]

theorem takeLineClosing {l : String × String} (closing : InputLine.isClosing l.2 = true) :
    s.takeLine store l.1 document l.2 = pure .finished := by
  have some : Text.trim l.2 ≠ "" := by
    intro blank
    rw [InputLine.isClosing, blank] at closing
    cases closing
  rw [takeLine, if_neg some]
  simp only [(InputLine.parseClosing l.2).mpr closing]

theorem collectHandled [LawfulMonad m] (lines : List (String × String)) :
    s.collect store document lines = s.collect store document (handled lines) := by
  induction lines generalizing s with
  | nil => rfl
  | cons l rest ih =>
    by_cases closing : InputLine.isClosing l.2 = true
    · have none : handled (l :: rest) = [] := by simp [handled, closing]
      rw [none, collect, collect, takeLineClosing store document s closing, pure_bind]
    · by_cases blank : Text.trim l.2 = ""
      · have skipped : handled (l :: rest) = handled rest := by simp [handled, closing, blank]
        rw [skipped, collect, takeLineBlank store document s blank, pure_bind]
        exact ih s
      · have kept : handled (l :: rest) = l :: handled rest := by simp [handled, closing, blank]
        rw [kept, collect, collect]
        refine bind_congr fun result => ?_
        cases result with
        | skipped => exact ih s
        | finished => rfl
        | entered entry next =>
          dsimp only
          rw [ih next]

end

section
variable {σ : Type} (store : Store (StateM σ)) (document : Json)

/-- What a line comes to. Only an accepted one changes the session, and the store is called for
rules that were admitted. -/
inductive Entered (s : Session) (state : σ) (l : String × String) : Entry → Session → σ → Prop
  | malformed {e : ShapeError} (unread : InputLine.parse l.2 = .error e) :
      Entered s state l (.rejected (.shape e)) s state
  | inadmissible {p : Proposal} {why : Rejection} (read : InputLine.parse l.2 = .ok (.proposal p))
      (judged : s.addRule l.1 p document = .error why) :
      Entered s state l (.rejected why) s state
  | refused {p : Proposal} {r : Rule} {failure : StoreError} {after : σ}
      (read : InputLine.parse l.2 = .ok (.proposal p)) (judged : s.addRule l.1 p document = .ok r)
      (saving : store.saveRule r state = (.error failure, after)) :
      Entered s state l (.rejected (.store failure)) s after
  | accepted {p : Proposal} {r saved : Rule} {middle : σ}
      (read : InputLine.parse l.2 = .ok (.proposal p)) (judged : s.addRule l.1 p document = .ok r)
      (saving : store.saveRule r state = (.ok saved, middle)) :
      Entered s state l (.accepted saved) (s.extend saved)
        (store.upsertSchema s.config.schemaName (s.extend saved).mergedSchema.toJson middle).2

inductive Enters : Session → σ → List (String × String) → List Entry → Session → σ → Prop
  | nil {s : Session} {state : σ} : Enters s state [] [] s state
  | cons {s next last : Session} {state middle after : σ} {l : String × String}
      {rest : List (String × String)} {entry : Entry} {entries : List Entry}
      (first : Entered store document s state l entry next middle)
      (later : Enters next middle rest entries last after) :
      Enters s state (l :: rest) (entry :: entries) last after

variable {store document} {s next last : Session} {state after : σ} {l : String × String}
  {lines : List (String × String)} {entry : Entry} {entries : List Entry}

theorem takeLineSteps (counts : Text.trim l.2 ≠ "") :
    s.takeLine store l.1 document l.2 state = match InputLine.parse l.2 with
      | .ok .done => (.finished, state)
      | .error e => (.entered (.rejected (.shape e)) s, state)
      | .ok (.proposal p) => match s.adopt store l.1 p document state with
        | ((.ok r, next), after) => (.entered (.accepted r) next, after)
        | ((.error why, next), after) => (.entered (.rejected why) next, after) := by
  rw [takeLine, if_neg counts]
  cases InputLine.parse l.2 with
  | error e => rfl
  | ok input => cases input with
    | done => rfl
    | proposal p =>
      simp only [bind, StateT.bind]
      cases s.adopt store l.1 p document state with
      | mk turn after => obtain ⟨answer, next⟩ := turn; cases answer <;> rfl

theorem takeLineSound (counts : Text.trim l.2 ≠ "") (open_ : InputLine.parse l.2 ≠ .ok .done) :
    ∃ entry next after, s.takeLine store l.1 document l.2 state = (.entered entry next, after) ∧
      Entered store document s state l entry next after := by
  rw [takeLineSteps counts]
  cases read : InputLine.parse l.2 with
  | error e => exact ⟨_, _, _, rfl, .malformed read⟩
  | ok input => cases input with
    | done => exact absurd read open_
    | proposal p =>
      dsimp only
      rcases adoptCases store s l.1 p document state with
        ⟨_, judged, ends⟩ | ⟨_, _, _, judged, saving, ends⟩ | ⟨_, _, _, judged, saving, ends⟩
      all_goals rw [ends]
      · exact ⟨_, _, _, rfl, .inadmissible read judged⟩
      · exact ⟨_, _, _, rfl, .refused read judged saving⟩
      · exact ⟨_, _, _, rfl, .accepted read judged saving⟩

theorem takeLineComplete (counts : Text.trim l.2 ≠ "")
    (entered : Entered store document s state l entry next after) :
    s.takeLine store l.1 document l.2 state = (.entered entry next, after) := by
  rw [takeLineSteps counts]
  cases entered with
  | malformed unread => rw [unread]
  | inadmissible read judged => simp only [read, adoptEq, judged]
  | refused read judged saving => simp only [read, adoptEq, judged, saving]
  | accepted read judged saving =>
    simp only [read, adoptEq, judged, saving]
    rfl

theorem collectCons (l : String × String) (rest : List (String × String)) :
    s.collect store document (l :: rest) state =
      match s.takeLine store l.1 document l.2 state with
      | (.skipped, middle) => s.collect store document rest middle
      | (.finished, middle) => (([], s), middle)
      | (.entered entry next, middle) =>
        ((entry :: (next.collect store document rest middle).1.1,
          (next.collect store document rest middle).1.2),
          (next.collect store document rest middle).2) := by
  rw [collect]
  simp only [bind, StateT.bind]
  cases s.takeLine store l.1 document l.2 state with
  | mk result middle => cases result <;> rfl

theorem collectSound
    (counts : ∀ l ∈ lines, Text.trim l.2 ≠ "" ∧ InputLine.parse l.2 ≠ .ok .done)
    (ended : s.collect store document lines state = ((entries, last), after)) :
    Enters store document s state lines entries last after := by
  induction lines generalizing s state entries with
  | nil =>
    cases ended
    exact .nil
  | cons l rest ih =>
    obtain ⟨counted, open_⟩ := counts l List.mem_cons_self
    obtain ⟨entry, next, middle, taken, first⟩ :
        ∃ entry next middle, s.takeLine store l.1 document l.2 state =
            (.entered entry next, middle) ∧
          Entered store document s state l entry next middle :=
      takeLineSound counted open_
    rw [collectCons, taken] at ended
    cases ended
    exact .cons first (ih (fun l inside => counts l (List.mem_cons_of_mem _ inside)) rfl)

theorem collectComplete (counts : ∀ l ∈ lines, Text.trim l.2 ≠ "")
    (enters : Enters store document s state lines entries last after) :
    s.collect store document lines state = ((entries, last), after) := by
  induction enters with
  | nil => rfl
  | cons first _ ih =>
    rw [collectCons, takeLineComplete (counts _ List.mem_cons_self) first]
    dsimp only
    rw [ih fun l inside => counts l (List.mem_cons_of_mem _ inside)]

theorem collectEnters : s.collect store document lines state = ((entries, last), after) ↔
    Enters store document s state (handled lines) entries last after := by
  rw [collectHandled]
  constructor
  · exact collectSound fun l inside => handledCounts inside
  · exact collectComplete fun l inside => (handledCounts inside).1

theorem Enters.counted (enters : Enters store document s state lines entries last after) :
    entries.length = lines.length := by
  induction enters with
  | nil => rfl
  | cons _ _ ih => rw [List.length_cons, List.length_cons, ih]

theorem Enters.grows (enters : Enters store document s state lines entries last after) :
    last = s.withRules (s.rules ++ entries.filterMap Entry.rule?) := by
  induction enters with
  | nil => simp [withRules]
  | cons first _ ih =>
    rw [ih]
    cases first with
    | accepted _ _ _ => simp [withRules, extend, Entry.rule?]
    | _ => rfl

theorem acceptedRules (entries : List Entry) :
    (entries.filterMap Entry.rule?).length = entries.countP Entry.isAccepted := by
  rw [List.length_filterMap_eq_countP]
  congr 1
  funext entry
  cases entry <;> rfl

/-- What a run over lines that count comes to. -/
structure Account (s : Session) (lines : List (String × String)) (entries : List Entry)
    (last : Session) : Prop where
  counted : entries.length = lines.length
  grown : last = s.withRules (s.rules ++ entries.filterMap Entry.rule?)
  noFewer : s.rules.length ≤ last.rules.length
  closing : closingText s.rules.length last =
    (entries.countP Entry.isAccepted).repr ++ " rule(s) committed"

theorem Enters.account (enters : Enters store document s state lines entries last after) :
    Account s lines entries last := by
  have total : last.rules.length = s.rules.length + entries.countP Entry.isAccepted := by
    rw [enters.grows, ← acceptedRules]
    exact List.length_append
  refine ⟨enters.counted, enters.grows, by omega, ?_⟩
  rw [closingText, total, Nat.add_sub_cancel_left]

theorem Enters.parted {early late : List Entry}
    (enters : Enters store document s state lines (early ++ late) last after) :
    ∃ before later t here, lines = before ++ later ∧
      Enters store document s state before early t here ∧
      Enters store document t here later late last after := by
  induction early generalizing s state lines with
  | nil => exact ⟨[], lines, s, state, rfl, .nil, enters⟩
  | cons entry rest ih =>
    cases enters with
    | cons first next =>
      obtain ⟨before, later, t, here, rfl, early, late⟩ := ih next
      exact ⟨_ :: before, later, t, here, rfl, .cons first early, late⟩

theorem Enters.appended {before later : List (String × String)} {early late : List Entry}
    {t : Session} {here : σ} (first : Enters store document s state before early t here)
    (rest : Enters store document t here later late last after) :
    Enters store document s state (before ++ later) (early ++ late) last after := by
  induction first with
  | nil => exact rest
  | cons entered _ ih => exact .cons entered (ih rest)

theorem Entered.rejected {why : Rejection}
    (entered : Entered store document s state l (.rejected why) next after) :
    next = s ∧ (after = state ∨ ∃ r failure, store.saveRule r state = (.error failure, after)) := by
  cases entered with
  | malformed _ => exact ⟨rfl, .inl rfl⟩
  | inadmissible _ _ => exact ⟨rfl, .inl rfl⟩
  | refused _ _ saving => exact ⟨rfl, .inr ⟨_, _, saving⟩⟩

section
variable {alike : σ → σ → Prop} {other : σ}

theorem Entered.elsewhere (blind : store.Blind alike) (same : alike state other)
    (entered : Entered store document s state l entry next after) :
    ∃ final, Entered store document s other l entry next final ∧ alike after final := by
  cases entered with
  | malformed unread => exact ⟨other, .malformed unread, same⟩
  | inadmissible read judged => exact ⟨other, .inadmissible read judged, same⟩
  | refused read judged saving =>
    obtain ⟨final, again, kept⟩ := blind.saving same saving
    exact ⟨final, .refused read judged again, kept⟩
  | accepted read judged saving =>
    obtain ⟨middle, again, kept⟩ := blind.saving same saving
    exact ⟨_, .accepted read judged again, blind.storing kept _ _⟩

theorem Enters.elsewhere (blind : store.Blind alike) (same : alike state other)
    (enters : Enters store document s state lines entries last after) :
    ∃ final, Enters store document s other lines entries last final ∧ alike after final := by
  induction enters generalizing other with
  | nil => exact ⟨other, .nil, same⟩
  | cons first _ ih =>
    obtain ⟨between, entered, kept⟩ := first.elsewhere blind same
    obtain ⟨final, enters, ended⟩ := ih kept
    exact ⟨final, .cons entered enters, ended⟩

end

/-- Lines behind a rejected one are entered from the session before it. The run is that of the
other lines, unless the store refused the rule and its calls tell what that has left. -/
theorem Enters.around {early late : List Entry} {why : Rejection}
    (counts : ∀ l ∈ lines, Text.trim l.2 ≠ "")
    (enters : Enters store document s state lines (early ++ .rejected why :: late) last after) :
    ∃ before l later t here middle, lines = before ++ l :: later ∧
      Enters store document s state before early t here ∧
      Entered store document t here l (.rejected why) t middle ∧
      Enters store document t middle later late last after ∧
      (middle = here ∧
          s.collect store document (before ++ later) state = ((early ++ late, last), after) ∨
        ∃ r failure, store.saveRule r here = (.error failure, middle) ∧
          ∀ alike, store.Blind alike → alike middle here → ∃ final,
            s.collect store document (before ++ later) state = ((early ++ late, last), final) ∧
            alike after final) := by
  obtain ⟨before, rest, t, here, rfl, first, others⟩ := enters.parted
  cases others with
  | @cons _ next _ _ middle _ l later _ _ entered others =>
    have counted : ∀ l ∈ before ++ later, Text.trim l.2 ≠ "" := by
      intro l inside
      apply counts l
      rcases List.mem_append.mp inside with early | late
      · exact List.mem_append_left _ early
      · exact List.mem_append_right before (List.mem_cons_of_mem _ late)
    obtain ⟨rfl, untouched | ⟨r, failure, saving⟩⟩ := entered.rejected
    · refine ⟨before, l, later, _, here, middle, rfl, first, entered, others, .inl ⟨untouched, ?_⟩⟩
      rw [untouched] at others
      exact collectComplete counted (first.appended others)
    · refine ⟨before, l, later, _, here, middle, rfl, first, entered, others,
        .inr ⟨r, failure, saving, fun alike blind same => ?_⟩⟩
      obtain ⟨final, again, kept⟩ := others.elsewhere blind same
      exact ⟨final, collectComplete counted (first.appended again), kept⟩

/-- Whatever a save that was refused has left on a disk, later lines come to what they come to on
the files that were there before it. -/
theorem Enters.pastRejected {path : String} {why : Rejection} {here middle after : Disk}
    (rejected : Entered (.file .onDisk path) document s here l (.rejected why) next middle)
    (enters : Enters (.file .onDisk path) document next middle lines entries last after) :
    ∃ final, Enters (.file .onDisk path) document s ⟨here.files, middle.fate⟩ lines entries last
      final ∧ Store.Same path after final := by
  obtain ⟨rfl, untouched | ⟨r, failure, saving⟩⟩ := rejected.rejected
  · rw [untouched] at enters ⊢
    exact ⟨after, enters, rfl, rfl⟩
  · have kept := savingFails saving (Store.siblingDiffers path).symm
    have same : Store.Same path middle ⟨here.files, middle.fate⟩ := ⟨rfl, kept⟩
    exact enters.elsewhere (Store.fileBlind path) same

end

end Session

end RuleSchema
