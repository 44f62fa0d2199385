import RuleSchema.Proofs.Schema.References
/-! Expansion beside the unfolding of references that remembers none of them. What is expanded is
what some fuel unfolds, and a cycle is found exactly where no fuel is enough. -/
namespace RuleSchema

namespace Json

inductive Halt where
  | failed (e : ReferenceError)
  | outOfFuel
  deriving DecidableEq, Repr

theorem lessLeft {spent fuel : Nat} (left : spent < fuel) : fuel - spent - 1 < fuel := by omega

/-- Follows a reference for a unit of fuel. The state is the fuel spent so far, and `within` is the
unfolding with less fuel, which says what it spends. -/
def spendOn (root : Json) (fuel : Nat)
    (within : (less : Nat) → less < fuel → Json → Except Halt (Json × Nat)) (r : String) :
    StateT Nat (Except Halt) Json := fun spent =>
  match target root r with
  | .error e => .error (.failed e)
  | .ok place =>
    if left : spent < fuel then
      (within (fuel - spent - 1) (lessLeft left) place).map fun p => (p.1, spent + 1 + p.2)
    else .error .outOfFuel

/-- Unfolds the references of a value in a document, with no memory of those it has followed. -/
def unfoldWithin (root : Json) (fuel : Nat) (v : Json) : StateT Nat (Except Halt) Json :=
  v.replaceReferences (spendOn root fuel fun less _ place => (unfoldWithin root less place).run 0)
termination_by fuel

def unfold (root : Json) (fuel : Nat) : Except Halt Json := (unfoldWithin root fuel root).run' 0

def spend (root : Json) (fuel : Nat) : String → StateT Nat (Except Halt) Json :=
  spendOn root fuel fun less _ place => (unfoldWithin root less place).run 0

theorem unfoldWithinEq (root : Json) (fuel : Nat) (v : Json) :
    unfoldWithin root fuel v = v.replaceReferences (spend root fuel) := by
  rw [unfoldWithin, spend]

theorem spendFails {root : Json} {r : String} {e : ReferenceError}
    (failed : target root r = .error e) (fuel spent : Nat) :
    spend root fuel r spent = .error (.failed e) := by
  simp only [spend, spendOn, failed]

theorem spendStops {root place : Json} {r : String} (found : target root r = .ok place)
    {fuel spent : Nat} (none : fuel - spent = 0) :
    spend root fuel r spent = .error .outOfFuel := by
  have all : ¬ spent < fuel := by omega
  simp only [spend, spendOn, found, all, dite_false]

theorem spendGoes {root place : Json} {r : String} (found : target root r = .ok place)
    {fuel spent less : Nat} (left : fuel - spent = less + 1) :
    spend root fuel r spent =
      (unfoldWithin root less place 0).map fun p => (p.1, spent + 1 + p.2) := by
  have some : spent < fuel := by omega
  have next : fuel - spent - 1 = less := by omega
  simp only [spend, spendOn, found, some, dite_true, next]
  rfl

/-- The unfolding of the place of a reference ends without fuel. -/
def Starves (root : Json) (fuel : Nat) (r : String) : Prop :=
  ∀ place, target root r = .ok place → unfoldWithin root fuel place 0 = .error .outOfFuel

/-- What an expansion comes to while references are being followed, beside what the unfolding does
with its fuel: it has a cost, or it does not end if the reference that closes the cycle does not. -/
inductive Agrees (root : Json) (active : List String) {α : Type}
    (unfolded : Nat → StateT Nat (Except Halt) α) : Except ReferenceError α → Prop
  | ends {result : Except ReferenceError α} (plain : ∀ r, result ≠ .error (.cyclic r)) (cost : Nat)
      (run : ∀ fuel spent, unfolded fuel spent = if cost ≤ fuel - spent then
        (result.mapError .failed).map fun a => (a, spent + cost) else .error .outOfFuel) :
      Agrees root active unfolded result
  | cycles {r : String} (run : ∀ fuel spent,
      (r ∈ active → ∀ less < fuel - spent, Starves root less r) →
        unfolded fuel spent = .error .outOfFuel) :
      Agrees root active unfolded (.error (.cyclic r))

namespace Agrees
variable {root : Json} {active : List String} {α β : Type}
  {unfolded : Nat → StateT Nat (Except Halt) α} {expanded : Except ReferenceError α}

theorem pure (a : α) : Agrees root active (fun _ => Pure.pure a) (Pure.pure a) :=
  .ends nofun 0 fun fuel spent => by
    rw [if_pos (Nat.zero_le _)]
    rfl

theorem bind (agrees : Agrees root active unfolded expanded)
    {after : Nat → α → StateT Nat (Except Halt) β} {next : α → Except ReferenceError β}
    (later : ∀ a, Agrees root active (fun fuel => after fuel a) (next a)) :
    Agrees root active (fun fuel => unfolded fuel >>= after fuel) (expanded >>= next) := by
  cases agrees with
  | @ends _ plain cost run =>
    cases expanded with
    | error e =>
      refine .ends (fun r same => plain r (congrArg _ (Except.error.inj same))) cost
        fun fuel spent => ?_
      simp only [Bind.bind, StateT.bind, run]
      split <;> rfl
    | ok a =>
      -- What is spent first is missing afterwards.
      have runs : ∀ fuel spent, (unfolded fuel >>= after fuel) spent =
          if cost ≤ fuel - spent then after fuel a (spent + cost) else .error .outOfFuel := by
        intro fuel spent
        simp only [Bind.bind, StateT.bind, run]
        split <;> rfl
      have rest := later a
      show Agrees root active _ (next a)
      generalize next a = ended at rest ⊢
      cases rest with
      | ends plain more go =>
        refine .ends plain (cost + more) fun fuel spent => ?_
        rw [runs, go, ← ite_and, Nat.add_assoc]
        congr 1
        exact propext (by omega)
      | cycles go =>
        refine .cycles fun fuel spent starves => ?_
        rw [runs, go fuel (spent + cost) fun again less there => starves again less (by omega),
          ite_self]
  | cycles run =>
    refine .cycles fun fuel spent starves => ?_
    simp only [Bind.bind, StateT.bind, run fuel spent starves]
    rfl

theorem map (agrees : Agrees root active unfolded expanded) (f : α → β) :
    Agrees root active (fun fuel => f <$> unfolded fuel) (f <$> expanded) := by
  have mapped : Agrees root active (fun fuel => unfolded fuel >>= fun a => Pure.pure (f a))
      (expanded >>= fun a => Pure.pure (f a)) := agrees.bind fun a => pure (f a)
  simpa only [bind_pure_comp] using mapped

end Agrees

section
variable {root : Json} {active : List String}

theorem elementsAgree {f : Nat → String → StateT Nat (Except Halt) Json}
    {g : String → Except ReferenceError Json} {elements : List Json}
    (each : ∀ v ∈ elements,
      Agrees root active (fun fuel => v.replaceReferences (f fuel)) (v.replaceReferences g)) :
    Agrees root active (fun fuel => replaceInElements (f fuel) elements)
      (replaceInElements g elements) := by
  induction elements with
  | nil => exact .pure []
  | cons v rest ih =>
    have others := ih fun w inside => each w (List.mem_cons_of_mem v inside)
    exact (each v List.mem_cons_self).bind fun w => others.bind fun ws => .pure (w :: ws)

theorem membersAgree {f : Nat → String → StateT Nat (Except Halt) Json}
    {g : String → Except ReferenceError Json} {members : List (String × Json)}
    (each : ∀ p ∈ members,
      Agrees root active (fun fuel => p.2.replaceReferences (f fuel)) (p.2.replaceReferences g)) :
    Agrees root active (fun fuel => replaceInMembers (f fuel) members)
      (replaceInMembers g members) := by
  induction members with
  | nil => exact .pure []
  | cons p rest ih =>
    obtain ⟨key, v⟩ := p
    have others := ih fun q inside => each q (List.mem_cons_of_mem _ inside)
    exact (each (key, v) List.mem_cons_self).bind fun w => others.bind fun ws =>
      .pure ((key, w) :: ws)

/-- A cycle through the reference that has just been followed starves it, whatever the fuel. -/
theorem cycleStarves {r : String} {place : Json} (found : target root r = .ok place)
    (run : ∀ fuel spent, (∀ less < fuel - spent, Starves root less r) →
      unfoldWithin root fuel place spent = .error .outOfFuel) (fuel : Nat) :
    Starves root fuel r := by
  induction fuel using Nat.strongRecOn with
  | ind fuel fewer =>
    intro other again
    cases found.symm.trans again
    exact run fuel 0 fewer

theorem placeAgrees {r : String} {place : Json} {expanded : Except ReferenceError Json}
    (fresh : r ∉ active) (found : target root r = .ok place)
    (agrees : Agrees root (r :: active) (fun fuel => unfoldWithin root fuel place) expanded) :
    Agrees root active (fun fuel => spend root fuel r) expanded := by
  cases agrees with
  | ends plain cost run =>
    refine .ends plain (cost + 1) fun fuel spent => ?_
    cases left : fuel - spent with
    | zero => rw [spendStops found left, if_neg (by omega)]
    | succ less =>
      rw [spendGoes found left, run, Nat.sub_zero]
      simp only [Nat.add_le_add_iff_right, Nat.zero_add, Nat.add_right_comm spent 1, Nat.add_assoc]
      split
      · cases expanded <;> rfl
      · rfl
  | @cycles q run =>
    refine .cycles fun fuel spent starves => ?_
    cases left : fuel - spent with
    | zero => exact spendStops found left
    | succ less =>
      have starved : unfoldWithin root less place 0 = .error .outOfFuel := by
        refine run less 0 fun there fewer small => ?_
        by_cases same : q = r
        · subst same
          exact cycleStarves found (fun fuel spent starves => run fuel spent fun _ => starves) fewer
        · exact starves ((List.mem_cons.mp there).resolve_left same) fewer (by omega)
      rw [spendGoes found left, starved]
      rfl

theorem followAgrees {c : Visit} (settled : Settled root c) {r : String}
    (placed : ∀ place, r ∉ c.active → target root r = .ok place →
      Agrees root (r :: c.active) (fun fuel => unfoldWithin root fuel place)
        (expandFrom root ⟨r :: c.active, place⟩)) :
    Agrees root c.active (fun fuel => spend root fuel r) (followFrom root c.active r) := by
  rcases followCases settled r with ⟨active, follows⟩ | ⟨fresh, ⟨e, failed, follows⟩ |
    ⟨place, found, follows⟩⟩
  · rw [follows]
    refine .cycles fun fuel spent starves => ?_
    obtain ⟨place, found⟩ := settled.found r active
    cases left : fuel - spent with
    | zero => exact spendStops found left
    | succ less =>
      rw [spendGoes found left, starves active less (by omega) place found]
      rfl
  · rw [follows]
    refine .ends ?_ 0 fun fuel spent => ?_
    · rcases targetFails failed with rfl | rfl <;> simp
    · rw [if_pos (Nat.zero_le _), spendFails failed]
      rfl
  · rw [follows]
    exact placeAgrees fresh found (placed place fresh found)

theorem visitAgrees {c : Visit} (settled : Settled root c) :
    Agrees root c.active (fun fuel => unfoldWithin root fuel c.value) (expandFrom root c) := by
  refine visitInduction (motive := fun c => Agrees root c.active
    (fun fuel => unfoldWithin root fuel c.value) (expandFrom root c)) (fun c settled calls => ?_)
    settled
  obtain ⟨active, v⟩ := c
  have each : ∀ w, Calls root ⟨active, v⟩ ⟨active, w⟩ →
      Agrees root active (fun fuel => w.replaceReferences (spend root fuel))
        (w.replaceReferences (followFrom root active)) := by
    intro w call
    simpa only [unfoldWithinEq, expandFromEq (callSettled settled call)] using calls _ call
  simp only [unfoldWithinEq, expandFromEq settled]
  cases v with
  | null | bool _ | number _ | string _ => exact .pure _
  | array elements => exact (elementsAgree fun v inside => each v (.element inside)).map Json.array
  | object members =>
    cases own : reference? members with
    | none =>
      simp only [replaceReferences, own]
      exact (membersAgree fun p inside => each p.2 (.member own inside)).map Json.object
    | some r =>
      simp only [replaceReferences, own]
      exact followAgrees settled fun place fresh found => calls _ (.follow own fresh found)

theorem unfoldOutcome (d : Json) :
    (∃ result cost, d.expandReferences = result ∧ (∀ r, result ≠ .error (.cyclic r)) ∧
      ∀ fuel, d.unfold fuel =
        if cost ≤ fuel then result.mapError .failed else .error .outOfFuel) ∨
    ∃ r, d.expandReferences = .error (.cyclic r) ∧ ∀ fuel, d.unfold fuel = .error .outOfFuel := by
  have agrees := visitAgrees (startSettled d)
  rw [expandFromStart] at agrees
  generalize d.expandReferences = expanded at agrees ⊢
  cases agrees with
  | ends plain cost run =>
    refine .inl ⟨expanded, cost, rfl, plain, fun fuel => ?_⟩
    simp only [unfold, StateT.run', run, Nat.sub_zero]
    split
    · cases expanded <;> rfl
    · rfl
  | @cycles r run =>
    refine .inr ⟨r, rfl, fun fuel => ?_⟩
    simp only [unfold, StateT.run', run fuel 0 nofun]
    rfl

theorem neverStarved (result : Except ReferenceError Json) :
    result.mapError Halt.failed ≠ .error .outOfFuel := by
  cases result <;> simp [Except.mapError]

theorem sameResult {result other : Except ReferenceError Json}
    (same : result.mapError Halt.failed = other.mapError Halt.failed) : result = other := by
  cases result <;> cases other <;> simp_all [Except.mapError]

theorem expandsIff (d : Json) {result : Except ReferenceError Json}
    (plain : ∀ r, result ≠ .error (.cyclic r)) :
    d.expandReferences = result ↔ ∃ fuel, d.unfold fuel = result.mapError .failed := by
  rcases unfoldOutcome d with ⟨reached, cost, expanded, _, run⟩ | ⟨r, expanded, run⟩
  · rw [expanded]
    constructor
    · rintro rfl
      exact ⟨cost, by rw [run, if_pos (Nat.le_refl cost)]⟩
    · rintro ⟨fuel, unfolded⟩
      rw [run] at unfolded
      split at unfolded
      · exact sameResult unfolded
      · exact absurd unfolded.symm (neverStarved result)
  · rw [expanded]
    constructor
    · exact fun same => absurd same.symm (plain r)
    · rintro ⟨fuel, unfolded⟩
      rw [run] at unfolded
      exact absurd unfolded.symm (neverStarved result)

theorem cyclicIff (d : Json) : (∃ r, d.expandReferences = .error (.cyclic r)) ↔
    ∀ fuel, d.unfold fuel = .error .outOfFuel := by
  rcases unfoldOutcome d with ⟨reached, cost, expanded, plain, run⟩ | ⟨r, expanded, run⟩
  · constructor
    · rintro ⟨r, cyclic⟩
      exact absurd (expanded.symm.trans cyclic) (plain r)
    · intro starved
      have ends := starved cost
      rw [run, if_pos (Nat.le_refl cost)] at ends
      exact absurd ends (neverStarved reached)
  · exact ⟨fun _ => run, fun _ => ⟨r, expanded⟩⟩

/-- Expansion ends and follows no reference inside itself, and only that stops it. It succeeds or
fails as some fuel unfolds the document, and finds a cycle exactly when no fuel is enough. Pointers
are looked up token by token in the document as it is, and what begins with no slash is none. -/
theorem expansionExact (d : Json) :
    (∀ c, d.Visited c → Acc (fun callee caller => d.Calls caller callee) c ∧
      c.active.Nodup ∧ c.active.length ≤ d.references.dedup.length ∧
      d.expandFrom c = c.value.replaceReferences (d.followFrom c.active)) ∧
    (∀ out, d.expandReferences = .ok out ↔ ∃ fuel, d.unfold fuel = .ok out) ∧
    (∀ r, d.expandReferences = .error (.unresolved r) ↔
      ∃ fuel, d.unfold fuel = .error (.failed (.unresolved r))) ∧
    (∀ r, d.expandReferences = .error (.external r) ↔
      ∃ fuel, d.unfold fuel = .error (.failed (.external r))) ∧
    ((∃ r, d.expandReferences = .error (.cyclic r)) ↔
      ∀ fuel, d.unfold fuel = .error .outOfFuel) ∧
    (∀ tokens, target d ("#" ++ Pointer.ofTokens tokens) =
      match d.descend? tokens with
      | some v => .ok v
      | none => .error (.unresolved ("#" ++ Pointer.ofTokens tokens))) ∧
    ∀ r c cs, r.toList = '#' :: c :: cs → c ≠ '/' → target d r = .error (.unresolved r) := by
  refine ⟨fun c visited => ?_, fun out => expandsIff d nofun, fun r => expandsIff d nofun,
    fun r => expandsIff d nofun, cyclicIff d, targetOfTokens d,
    fun r c cs text differs => targetUnrooted d text differs⟩
  have settled := visitedSettled visited
  exact ⟨callsEnd settled, settled.nodup, activeBound settled, expandFromEq settled⟩

/-- A place with two references to it, one through the other. -/
def shared : Json :=
  .object [("bill", .object [("$ref", .string "#/ship")]),
    ("pay", .object [("$ref", .string "#/bill")]), ("ship", .bool true)]

def looped : Json :=
  .object [("bill", .object [("$ref", .string "#/pay")]),
    ("pay", .array [.object [("$ref", .string "#/bill")]])]

theorem expansionExactShared :
    shared.expandReferences =
      .ok (.object [("bill", .bool true), ("pay", .bool true), ("ship", .bool true)]) ∧
    (∃ fuel, shared.unfold fuel =
      .ok (.object [("bill", .bool true), ("pay", .bool true), ("ship", .bool true)])) ∧
    looped.expandReferences = .error (.cyclic "#/pay") ∧
    ∀ fuel, looped.unfold fuel = .error .outOfFuel := by
  have expanded : shared.expandReferences =
      .ok (.object [("bill", .bool true), ("pay", .bool true), ("ship", .bool true)]) := by rfl
  have cyclic : looped.expandReferences = .error (.cyclic "#/pay") := by rfl
  exact ⟨expanded, ((expansionExact shared).2.1 _).mp expanded, cyclic,
    (expansionExact looped).2.2.2.2.1.mp ⟨_, cyclic⟩⟩

end

end Json

end RuleSchema
