import RuleSchema.Proofs.Session.Runs
/-! Engines that can always be made. A base without fault stays so under any rules, and the schema
a sample shows has none, so no rule is ever rejected for the schema it would give and a session
has an engine at every moment. -/
namespace RuleSchema

section
variable {config : Config} {document : Json} {base : Schema}

theorem tryRuleSound (sound : base.fault? = none) (active : List Rule) (r : Rule)
    (f : SchemaFault) : tryRule config document base active r ≠ .error (.schemaFault f) := by
  intro failed
  rw [tryRule, Engine.ofBaseSound sound] at failed
  dsimp only at failed
  split at failed <;> cases failed

theorem admitRuleSound (sound : base.fault? = none) (active : List Rule) (fresh : String)
    (p : Proposal) (f : SchemaFault) :
    admitRule config document base active fresh p ≠ .error (.schemaFault f) := by
  rw [admitRuleEq]
  -- What fails before the trial fails for the rule alone; only the trial makes an engine.
  split
  · nofun
  · split
    · nofun
    · split
      · nofun
      · split
        · nofun
        · exact tryRuleSound sound active _ f

end

namespace Session
variable {σ : Type} (store : Store (StateM σ))

theorem adoptBase (s : Session) (c : Call) (state : σ) :
    (s.adopt store c.fresh c.proposal c.document state).1.2.base = s.base := by
  rcases adoptCases store s c.fresh c.proposal c.document state with
    ⟨_, _, ends⟩ | ⟨_, _, _, _, _, ends⟩ | ⟨_, _, _, _, _, ends⟩
  all_goals rw [ends]
  rfl

/-- Whatever the store answers, an adoption never fails for a fault of the schema. -/
theorem adoptSound {s : Session} (sound : s.base.fault? = none) (c : Call) (state : σ)
    (f : SchemaFault) :
    (s.adopt store c.fresh c.proposal c.document state).1.1 ≠ .error (.schemaFault f) := by
  have judged : s.addRule c.fresh c.proposal c.document ≠ .error (.schemaFault f) :=
    admitRuleSound sound s.rules c.fresh c.proposal f
  rcases adoptCases store s c.fresh c.proposal c.document state with
    ⟨_, rejected, ends⟩ | ⟨_, _, _, _, _, ends⟩ | ⟨_, _, _, _, _, ends⟩
  all_goals rw [ends]
  · rw [rejected] at judged
    exact judged
  · nofun
  · nofun

theorem adoptAllBase (s : Session) (calls : List Call) (state : σ) :
    (s.adoptAll store calls state).1.base = s.base :=
  adoptAllInduction (motive := fun t => t.base = s.base)
    (fun t c state _ same => (adoptBase store t c state).trans same) rfl state

theorem engineSound {s : Session} (sound : s.base.fault? = none) : s.engine.isOk = true := by
  rw [engine, mergedSchema, Engine.compileSound (Schema.withRulesSound sound s.rules)]
  rfl

end Session

/-- Over a base that an engine was made of, or that a sample shows, an engine can be made of any
rules. No candidate is rejected for a fault of the schema, whatever rules are active, and in every
run of a session, whatever its store answers, the session has an engine. -/
theorem Engine.alwaysMade {base : Schema} {config : Config}
    (usable : (compile base [] config).isOk = true ∨
      ∃ other sample, base = Schema.infer other sample) :
    (∀ rules, (ofBase base rules config).isOk = true) ∧
    (∀ sample rules, (ofSample sample rules config).isOk = true) ∧
    (∀ document active fresh p f,
      admitRule config document base active fresh p ≠ .error (.schemaFault f)) ∧
    ∀ {σ : Type} (store : Store (StateM σ)) (rules : List Rule) (calls : List Call)
        (start state : σ) (last : Session),
      ((Session.new base config).withRules rules).adoptAll store calls start = (last, state) →
      last.engine.isOk = true ∧
        ∀ (c : Call) (f : SchemaFault),
          (last.adopt store c.fresh c.proposal c.document state).1.1 ≠ .error (.schemaFault f) := by
  have sound : base.fault? = none := by
    rcases usable with accepted | ⟨other, sample, rfl⟩
    · exact soundOfCompiles accepted
    · exact Schema.inferSound other sample
  have made : ∀ {b : Schema}, b.fault? = none → ∀ rules, (ofBase b rules config).isOk = true := by
    intro b fine rules
    rw [ofBaseSound fine]
    rfl
  refine ⟨made sound, fun sample => made (Schema.inferSound config sample), fun document active =>
    admitRuleSound sound active, fun store rules calls start state last reached => ?_⟩
  have kept := Session.adoptAllBase store ((Session.new base config).withRules rules) calls start
  rw [reached] at kept
  have lastSound : last.base.fault? = none := kept ▸ sound
  exact ⟨Session.engineSound lastSound, fun c f => Session.adoptSound store lastSound c state f⟩

open Sample in
theorem Engine.alwaysMadeAgain :
    (compile ((Schema.infer .standard invoice).withRules Sample.rules) [] .standard).isOk = true ∧
    (ofBase ((Schema.infer .standard invoice).withRules Sample.rules)
      (Sample.rules ++ rule "x" "totals.paid" .less "lots" :: Sample.rules) .standard).isOk = true ∧
    (((Session.new ((Schema.infer .standard invoice).withRules Sample.rules) .standard).withRules
      Sample.rules).adoptAll Sample.store calls .empty).1.engine.isOk = true := by
  have usable : (compile ((Schema.infer .standard invoice).withRules Sample.rules) []
      .standard).isOk = true := by
    decide +kernel
  obtain ⟨made, _, _, run⟩ := alwaysMade (.inl usable)
  exact ⟨usable, made _, (run Sample.store Sample.rules calls .empty _ _ (Prod.eta _).symm).1⟩

end RuleSchema
