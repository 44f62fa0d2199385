import Mathlib.Data.List.Chain
import RuleSchema.Proofs.Admission.Outcome
/-! Logs of admissions. Whatever candidate a proposal becomes, its log leads to its stage by
allowed moves. A run ends with the first check that fails, whose reason is in the last move, or
with a rule that passes every check. -/
namespace RuleSchema

structure Leads (log : List Transition) (s : Stage) : Prop where
  start : ∀ m, log.head? = some m → m.origin = .proposed
  linked : log.IsChain fun m next => next.origin = m.target
  allowed : ∀ m ∈ log, m.origin.allows m.target = true
  ends : (log.getLast?.map Transition.target).getD .proposed = s

theorem Leads.move {log : List Transition} {s t : Stage} (leads : Leads log s)
    (allowed : s.allows t = true) (reason : Option String) :
    Leads (log ++ [⟨s, t, reason⟩]) t where
  start m head := by
    cases log with
    | nil =>
      cases head
      exact leads.ends.symm
    | cons first rest => exact leads.start m head
  linked := by
    apply leads.linked.append (List.isChain_singleton _)
    intro m last next head
    cases head
    have target := leads.ends
    rw [Option.mem_def.mp last] at target
    exact target.symm
  allowed := by
    intro m inside
    cases List.mem_append.mp inside with
    | inl old => exact leads.allowed m old
    | inr new =>
      cases List.mem_singleton.mp new
      exact allowed
  ends := by simp

/-- How many moves lead to a stage, unless it is the one of rejection. -/
def Stage.moves? : Stage → Option Nat
  | proposed => some 0
  | shapeValidated => some 1
  | fieldResolved => some 2
  | trialValidated => some 3
  | committed => some 4
  | rejected => none

/-- How many moves end in a rejection for a reason. What a store refuses was admitted before. -/
def Rejection.moves? : Rejection → Option Nat
  | shape _ | operatorMismatch _ => some 1
  | fieldNotFound _ => some 2
  | conflict _ _ | schemaFault _ => some 3
  | store _ => none

namespace Candidate
variable {s t : Stage} {count : Nat}

/-- A check lets a candidate go on, or rejects it for a reason that its place in the run has. -/
inductive Moves (count : Nat) (c : Candidate s) :
    Except (Candidate .rejected) (Candidate t) → Prop
  | goes (content : t.Content) (allowed : s.allows t = true) :
      Moves count c (.ok (c.advance t content allowed))
  | stops (why : Rejection) (allowed : s.allows .rejected = true)
      (place : why.moves? = some (count + 1)) : Moves count c (.error (c.reject why allowed))

theorem checkShapeMoves (fresh : String) (active : List Rule) (c : Candidate .proposed) :
    c.Moves 0 (c.checkShape fresh active) := by
  unfold checkShape
  split
  · exact .stops _ rfl rfl
  · split
    · exact .stops _ rfl rfl
    · split
      · exact .stops _ rfl rfl
      · exact .goes _ rfl

theorem resolveFieldMoves (config : Config) (document : Json) (c : Candidate .shapeValidated) :
    c.Moves 1 (c.resolveField config document) := by
  obtain ⟨⟨r, path⟩, log⟩ := c
  unfold resolveField
  dsimp only
  split
  · exact .stops _ rfl rfl
  · split
    · exact .stops _ rfl rfl
    · exact .goes _ rfl

theorem trialMoves (config : Config) (document : Json) (base : Schema) (active : List Rule)
    (c : Candidate .fieldResolved) : c.Moves 2 (c.trial config document base active) := by
  unfold trial
  dsimp only
  split
  · exact .stops _ rfl rfl
  · split
    · exact .goes _ rfl
    · exact .stops _ rfl rfl

def reasons (c : Candidate s) : List (Option String) := c.log.map Transition.reason

theorem Moves.leadsOn {c : Candidate s} {next : Candidate t} (moves : c.Moves count (.ok next))
    (leads : Leads c.log s) (clean : c.reasons = List.replicate count none) :
    Leads next.log t ∧ next.reasons = List.replicate (count + 1) none := by
  cases moves with
  | goes content allowed =>
    refine ⟨leads.move allowed none, ?_⟩
    rw [reasons, advance, List.map_append, ← reasons, clean, List.replicate_succ']
    rfl

theorem Moves.leadsOff {c : Candidate s} {rejected : Candidate .rejected}
    (moves : c.Moves (t := t) count (.error rejected)) (leads : Leads c.log s)
    (clean : c.reasons = List.replicate count none) :
    Leads rejected.log .rejected ∧
      rejected.reasons = List.replicate count none ++ [some rejected.reason.message] ∧
      rejected.reason.moves? = some (count + 1) := by
  cases moves with
  | stops why allowed place =>
    refine ⟨leads.move allowed (some why.message), ?_, place⟩
    rw [reasons, reject, List.map_append, ← reasons, clean]
    rfl

end Candidate

/-- The rule a proposal stands for if its form is right. -/
def Proposal.draft? (p : Proposal) (fresh : String) : Option Rule :=
  (Condition.parse? p.condition).map fun c =>
    ⟨p.id.getD fresh, Text.trim p.field, c, literal p.value, false, p.message⟩

theorem Proposal.draftOfRule {p : Proposal} {fresh : String} {r : Rule} {path : FieldPath}
    (made : p.toRule fresh = .ok (r, path)) : p.draft? fresh = some r := by
  obtain ⟨parsed, c, condition, _, rfl⟩ := toRuleOk.mp made
  rw [draft?, condition, FieldPath.parsedText parsed]
  rfl

/-- The checks of an admission in their order. -/
inductive Check where
  | field
  | condition
  | value
  | operator
  | identifier
  | resolution
  | trial
  deriving DecidableEq, Repr

def Check.all : List Check := [field, condition, value, operator, identifier, resolution, trial]

section
variable (config : Config) (document : Json) (base : Schema) (active : List Rule)
  (fresh : String) (p : Proposal)

/-- What a check finds wrong with a proposal, whatever other checks find. -/
def Check.objection? : Check → Option Rejection
  | field => match FieldPath.parse p.field with
    | .error e => some (.shape e)
    | .ok _ => none
  | condition => match Condition.parse? p.condition with
    | none => some (.shape (.invalidCondition p.condition))
    | some _ => none
  | value => if Proposal.literal p.value = "" then some (.shape .emptyValue) else none
  | operator => (p.draft? fresh).bind fun r => match r.checkOperator with
    | .error e => some (.operatorMismatch e)
    | .ok () => none
  | identifier =>
    if p.id.getD fresh ∈ active.map Rule.id then
      some (.shape (.duplicateId (p.id.getD fresh)))
    else none
  | resolution => match FieldPath.parse p.field with
    | .error _ => none
    | .ok path => (unresolved? config document path).map .fieldNotFound
  | trial => (p.draft? fresh).bind fun r => match tryRule config document base active r with
    | .error why => some why
    | .ok _ => none

def firstObjection? : Option Rejection :=
  Check.all.findSome? (Check.objection? config document base active fresh p)

theorem formObjection :
    ([Check.field, .condition, .value].findSome? fun k =>
      k.objection? config document base active fresh p) =
    match p.toRule fresh with
    | .error e => some (.shape e)
    | .ok _ => none := by
  simp only [List.findSome?_cons, List.findSome?_nil, Check.objection?]
  unfold Proposal.toRule
  cases FieldPath.parse p.field with
  | error e => rfl
  | ok path =>
    cases Condition.parse? p.condition with
    | none => rfl
    | some c =>
      by_cases empty : Proposal.literal p.value = ""
      · simp only [bind, Except.bind, empty, if_true]
      · simp only [bind, Except.bind, empty, if_false]

theorem firstOfForm : firstObjection? config document base active fresh p =
    match p.toRule fresh with
    | .error e => some (.shape e)
    | .ok _ => [Check.operator, .identifier, .resolution, .trial].findSome? fun k =>
        k.objection? config document base active fresh p := by
  have parts : Check.all = [.field, .condition, .value] ++
      [.operator, .identifier, .resolution, .trial] := rfl
  rw [firstObjection?, parts, List.findSome?_append, formObjection]
  cases p.toRule fresh <;> rfl

/-- An admission ends with the first objection, or in the proposal's rule if there is none. -/
theorem admitRuleFirst :
    (∃ why, firstObjection? config document base active fresh p = some why ∧
      admitRule config document base active fresh p = .error why) ∨
    firstObjection? config document base active fresh p = none ∧ ∃ r, p.draft? fresh = some r ∧
      admitRule config document base active fresh p = .ok { r with isValid := true } := by
  rw [admitRuleEq, firstOfForm]
  cases made : p.toRule fresh with
  | error e => exact .inl ⟨.shape e, rfl, rfl⟩
  | ok shaped =>
    obtain ⟨r, path⟩ := shaped
    have draft := Proposal.draftOfRule made
    obtain ⟨parsed, c, _, _, same⟩ := Proposal.toRuleOk.mp made
    have id : r.id = p.id.getD fresh := by rw [same]
    simp only [List.findSome?_cons, List.findSome?_nil, Check.objection?, draft, parsed,
      Option.bind_some]
    cases r.checkOperator with
    | error e => exact .inl ⟨_, rfl, rfl⟩
    | ok =>
      rw [id]
      by_cases taken : p.id.getD fresh ∈ active.map Rule.id
      · have used : (active.any fun q => q.id == p.id.getD fresh) = true := by
          simpa using taken
        simp only [taken, used, if_true]
        exact .inl ⟨_, rfl, rfl⟩
      · have unused : (active.any fun q => q.id == p.id.getD fresh) = false := by
          simpa using taken
        simp only [taken, unused, if_false, Bool.false_eq_true]
        cases unresolved? config document path with
        | some e => exact .inl ⟨_, rfl, rfl⟩
        | none =>
          simp only [Option.map_none]
          cases tried : tryRule config document base active r with
          | error why => exact .inl ⟨why, rfl, rfl⟩
          | ok admitted => exact .inr ⟨rfl, r, rfl, congrArg _ (tryRuleOk tried).1⟩

/-- What comes out of the check that is next for a candidate. -/
inductive Checked : {s t : Stage} → Candidate s → Except (Candidate .rejected) (Candidate t) → Prop
  | shape {c : Candidate .proposed} {result : Except _ _}
      (ran : c.checkShape fresh active = result) : Checked c result
  | field {c : Candidate .shapeValidated} {result : Except _ _}
      (ran : c.resolveField config document = result) : Checked c result
  | trial {c : Candidate .fieldResolved} {result : Except _ _}
      (ran : c.trial config document base active = result) : Checked c result

/-- The candidates that a proposal becomes, one check after the other. -/
inductive Reached : {s : Stage} → Candidate s → Prop
  | new : Reached (Candidate.new p)
  | goes {s t : Stage} {c : Candidate s} {next : Candidate t} (here : Reached c)
      (checked : Checked config document base active fresh c (.ok next)) : Reached next
  | stops {s t : Stage} {c : Candidate s} {rejected : Candidate .rejected} (here : Reached c)
      (checked : Checked config document base active fresh (t := t) c (.error rejected)) :
      Reached rejected
  | commits {c : Candidate .trialValidated} (here : Reached c) : Reached c.commit

variable {config document base active fresh p}

theorem Checked.moves {s t : Stage} {c : Candidate s}
    {result : Except (Candidate .rejected) (Candidate t)}
    (checked : Checked config document base active fresh c result) :
    ∃ count, s.moves? = some count ∧ t.moves? = some (count + 1) ∧ c.Moves count result := by
  cases checked with
  | shape ran => exact ⟨0, rfl, rfl, ran ▸ Candidate.checkShapeMoves fresh active _⟩
  | field ran => exact ⟨1, rfl, rfl, ran ▸ Candidate.resolveFieldMoves config document _⟩
  | trial ran => exact ⟨2, rfl, rfl, ran ▸ Candidate.trialMoves config document base active _⟩

theorem Reached.traced {s : Stage} {c : Candidate s}
    (reached : Reached config document base active fresh p c) :
    Leads c.log s ∧ ∀ count, s.moves? = some count → c.reasons = List.replicate count none := by
  induction reached with
  | new =>
    refine ⟨⟨nofun, List.isChain_nil, nofun, rfl⟩, fun count place => ?_⟩
    cases place
    rfl
  | goes here checked ih =>
    obtain ⟨count, place, after, moves⟩ := checked.moves
    have gone := moves.leadsOn ih.1 (ih.2 count place)
    refine ⟨gone.1, fun more there => ?_⟩
    cases after.symm.trans there
    exact gone.2
  | stops here checked ih =>
    obtain ⟨count, place, _, moves⟩ := checked.moves
    exact ⟨(moves.leadsOff ih.1 (ih.2 count place)).1, nofun⟩
  | @commits c here ih =>
    refine ⟨ih.1.move rfl none, fun count place => ?_⟩
    cases place
    show (c.log ++ [_]).map Transition.reason = _
    rw [List.map_append]
    exact congrArg (· ++ [none]) (ih.2 3 rfl)

theorem Reached.committed {c : Candidate .committed}
    (reached : Reached config document base active fresh p c) :
    c.log.length = 4 ∧ ∀ m ∈ c.log, m.reason = none := by
  have clean : c.log.map Transition.reason = List.replicate 4 none := reached.traced.2 4 rfl
  constructor
  · simpa using congrArg List.length clean
  · intro m inside
    have among : m.reason ∈ c.log.map Transition.reason := List.mem_map_of_mem inside
    rw [clean] at among
    exact List.eq_of_mem_replicate among

theorem Reached.rejected {c : Candidate .rejected}
    (reached : Reached config document base active fresh p c) :
    c.reasons = List.replicate (c.log.length - 1) none ++ [some c.reason.message] ∧
      c.reason.moves? = some c.log.length := by
  cases reached with
  | goes here checked => cases checked
  | stops here checked =>
    obtain ⟨count, place, _, moves⟩ := checked.moves
    have before := here.traced
    have stopped := moves.leadsOff before.1 (before.2 count place)
    have length := congrArg List.length stopped.2.1
    simp [Candidate.reasons] at length
    rw [length]
    exact stopped.2

variable (config document base active fresh p) in
theorem judgeReached : match judge config document base active fresh p with
    | .ok c => Reached config document base active fresh p c
    | .error c => Reached config document base active fresh p c := by
  have start : Reached config document base active fresh p (Candidate.new p) := .new
  unfold judge
  cases shape : (Candidate.new p).checkShape fresh active with
  | error rejected => exact .stops start (.shape shape)
  | ok shaped =>
    have formed := start.goes (.shape shape)
    simp only [bind, Except.bind]
    cases field : shaped.resolveField config document with
    | error rejected => exact .stops formed (.field field)
    | ok resolved =>
      have found := formed.goes (.field field)
      dsimp only
      cases trial : resolved.trial config document base active with
      | error rejected => exact .stops found (.trial trial)
      | ok tried => exact .commits (found.goes (.trial trial))

theorem trialConflict {r : Rule} {id : String} {issues : List Issue}
    (tried : tryRule config document base active r = .error (.conflict id issues)) :
    r.id = id ∧ issues ≠ [] ∧ ∃ e, Engine.ofBase base (active ++ [r]) config = .ok e ∧
      (e.validate document).issues = issues := by
  unfold tryRule at tried
  split at tried
  · cases tried
  · rename_i e made
    split at tried
    · cases tried
    · rename_i invalid
      cases tried
      have some : (e.validate document).issues ≠ [] := by
        intro none
        rw [Report.isValid, none] at invalid
        exact invalid rfl
      exact ⟨rfl, some, e, made, rfl⟩

theorem objectionConflict {k : Check} {id : String} {issues : List Issue}
    (objects : k.objection? config document base active fresh p = some (.conflict id issues)) :
    issues ≠ [] ∧ ∃ r e, p.draft? fresh = some r ∧ r.id = id ∧
      Engine.ofBase base (active ++ [r]) config = .ok e ∧
      (e.validate document).issues = issues := by
  cases k with
  | field | condition | value | identifier | resolution =>
    simp only [Check.objection?] at objects
    split at objects <;> simp at objects
  | operator =>
    obtain ⟨r, draft, misfit⟩ := Option.bind_eq_some_iff.mp objects
    split at misfit <;> cases misfit
  | trial =>
    obtain ⟨r, draft, tried⟩ := Option.bind_eq_some_iff.mp objects
    split at tried
    · rename_i failed
      cases tried
      obtain ⟨id, some, e, made, listed⟩ := trialConflict failed
      exact ⟨some, r, e, draft, id, made, listed⟩
    · cases tried

end

/-- The log of every candidate a proposal becomes leads to its stage by allowed moves. A run ends
in a rule after four moves without reasons if no check finds anything, or else with the reason
that the first check finds, in the last move only, and at the move where such a reason is due. A
conflict has the issues that the engine with the rule finds, and there are some. -/
theorem logFaithful (config : Config) (document : Json) (base : Schema) (active : List Rule)
    (fresh : String) (p : Proposal) :
    (∀ (s : Stage) (c : Candidate s), Reached config document base active fresh p c →
      Leads c.log s) ∧
    ((∃ c, judge config document base active fresh p = .ok c ∧
        Reached config document base active fresh p c ∧
        c.log.length = 4 ∧ (∀ m ∈ c.log, m.reason = none) ∧
        firstObjection? config document base active fresh p = none ∧
        ∃ r, p.draft? fresh = some r ∧ c.rule = { r with isValid := true }) ∨
      ∃ c, judge config document base active fresh p = .error c ∧
        Reached config document base active fresh p c ∧
        firstObjection? config document base active fresh p = some c.reason ∧
        c.log.map Transition.reason =
          List.replicate (c.log.length - 1) none ++ [some c.reason.message] ∧
        c.reason.moves? = some c.log.length ∧
        ∀ id issues, c.reason = .conflict id issues → issues ≠ [] ∧
          ∃ r e, p.draft? fresh = some r ∧ r.id = id ∧
            Engine.ofBase base (active ++ [r]) config = .ok e ∧
            (e.validate document).issues = issues) := by
  constructor
  · intro s c reached
    exact reached.traced.1
  have ends := judgeReached config document base active fresh p
  have first := admitRuleFirst config document base active fresh p
  unfold admitRule at first
  cases judged : judge config document base active fresh p with
  | ok c =>
    rw [judged] at ends first
    rcases first with ⟨why, _, failed⟩ | ⟨unopposed, r, draft, admitted⟩
    · cases failed
    · obtain ⟨four, silent⟩ := ends.committed
      exact .inl ⟨c, rfl, ends, four, silent, unopposed, r, draft, Except.ok.inj admitted⟩
  | error c =>
    rw [judged] at ends first
    rcases first with ⟨why, found, failed⟩ | ⟨_, r, _, admitted⟩
    · cases failed
      obtain ⟨reasons, place⟩ := ends.rejected
      refine .inr ⟨c, rfl, ends, found, reasons, place, fun id issues conflict => ?_⟩
      rw [conflict] at found
      obtain ⟨k, _, objects⟩ := List.exists_of_findSome?_eq_some found
      exact objectionConflict objects
    · cases admitted

namespace Sample

/-- A proposal that no check of its form lets through. -/
def faulty : Proposal := ⟨some "low", " ", "~", ";", none⟩

/-- A proposal that no document with a total of 250 agrees to. -/
def steep : Proposal := ⟨some "low", "totals.paid", ">", "900", none⟩

def conflictOf? : Rejection → Option String
  | .conflict id _ => some id
  | _ => none

end Sample

open Sample in
theorem logFaithfulSteep :
    (∃ c, judge .standard invoice (Schema.infer .standard invoice) rules "fresh" faulty =
        .error c ∧ c.reason = .shape .emptyField ∧ Leads c.log .rejected) ∧
    ∃ c id issues, judge .standard invoice (Schema.infer .standard invoice) [] "fresh" steep =
        .error c ∧ c.reason = .conflict id issues ∧ issues ≠ [] ∧ c.log.length = 3 := by
  constructor
  · obtain ⟨trace, ends⟩ :=
      logFaithful .standard invoice (Schema.infer .standard invoice) rules "fresh" faulty
    rcases ends with ⟨c, _, _, _, _, none, _⟩ | ⟨c, judged, reached, first, _⟩
    · cases none
    · exact ⟨c, judged, (Option.some.inj first).symm, trace .rejected c reached⟩
  · have conflict : (firstObjection? .standard invoice (Schema.infer .standard invoice) []
        "fresh" steep).bind conflictOf? = some "low" := by
      decide +kernel
    obtain ⟨_, ends⟩ :=
      logFaithful .standard invoice (Schema.infer .standard invoice) [] "fresh" steep
    rcases ends with ⟨c, _, _, _, _, none, _⟩ | ⟨c, judged, _, first, _, place, issues⟩
    · rw [none] at conflict
      cases conflict
    · rw [first, Option.bind_some] at conflict
      cases why : c.reason with
      | conflict id listed =>
        rw [why] at place
        exact ⟨c, id, listed, judged, why, (issues id listed why).1, (Option.some.inj place).symm⟩
      | _ =>
        rw [why] at conflict
        cases conflict

end RuleSchema
