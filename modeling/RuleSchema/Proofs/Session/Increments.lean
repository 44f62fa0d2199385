import RuleSchema.Proofs.Session.Runs
import RuleSchema.Proofs.Validation.Enforcement
/-! Merged schemas that grow. Rules laid on a base at once, in two parts or one by one give the
same schema, so the merged schema of a session is that of any earlier moment with the rules that
came in since laid on it. -/
namespace RuleSchema

namespace Schema

theorem withRulesAppend {base : Schema} (ordered : base.Ordered) {first rest : List Rule}
    (compile : ∀ r ∈ first ++ rest, r.Compiles) :
    base.withRules (first ++ rest) = (base.withRules first).withRules rest := by
  have early : ∀ r ∈ first, r.Compiles :=
    fun r inside => compile r (List.mem_append_left rest inside)
  have late : ∀ r ∈ rest, r.Compiles :=
    fun r inside => compile r (List.mem_append_right first inside)
  -- A rule tree is grown afresh for each part, so the two are compared as impositions on the base.
  rw [withRulesInPlace (withRulesOrdered ordered first) late, withRulesInPlace ordered early,
    withRulesInPlace ordered compile, imposeAllAppend]

theorem withBatches {base : Schema} (ordered : base.Ordered) {batches : List (List Rule)}
    (compile : ∀ r ∈ batches.flatten, r.Compiles) :
    batches.foldl withRules base = base.withRules batches.flatten := by
  induction batches generalizing base with
  | nil => rfl
  | cons batch rest ih =>
    rw [List.flatten_cons] at compile ⊢
    rw [List.foldl_cons, withRulesAppend ordered compile]
    exact ih (withRulesOrdered ordered batch)
      fun r inside => compile r (List.mem_append_right batch inside)

/-- Rules compiled together give the schema they give in two parts, the second laid on what the
first has made, in whatever batches the second part comes. -/
theorem batchesAgree {base : Schema} {rs ss : List Rule} (ordered : base.Ordered)
    (compiled : (ofRules base (rs ++ ss)).isOk = true) :
    base.withRules (rs ++ ss) = (base.withRules rs).withRules ss ∧
      ∀ batches : List (List Rule), batches.flatten = ss →
        batches.foldl withRules (base.withRules rs) = base.withRules (rs ++ ss) := by
  have compile := compilesOfCompiled compiled
  refine ⟨withRulesAppend ordered compile, ?_⟩
  rintro batches rfl
  rw [withRulesAppend ordered compile]
  exact withBatches (withRulesOrdered ordered rs)
    fun r inside => compile r (List.mem_append_right rs inside)

open Sample in
theorem batchesAgreeTax :
    (ofRules (infer .standard invoice) ((rules ++ [taxRule]) ++ [taxLimit, taxRule])).isOk = true ∧
    (infer .standard invoice).withRules ((rules ++ [taxRule]) ++ [taxLimit, taxRule]) =
      ((infer .standard invoice).withRules (rules ++ [taxRule])).withRules [taxLimit, taxRule] ∧
    [[taxLimit], [], [taxRule]].foldl withRules
        ((infer .standard invoice).withRules (rules ++ [taxRule])) =
      (infer .standard invoice).withRules ((rules ++ [taxRule]) ++ [taxLimit, taxRule]) := by
  have compiled : (ofRules (infer .standard invoice)
      ((rules ++ [taxRule]) ++ [taxLimit, taxRule])).isOk = true := by
    decide +kernel
  have agree := batchesAgree (inferOrdered .standard invoiceOrdered) compiled
  exact ⟨compiled, agree.1, agree.2 [[taxLimit], [], [taxRule]] rfl⟩

end Schema

namespace Session

/-- The merged schema after a run is the one before it with the rules that came in laid on it, one
after the other. -/
theorem runMerged {σ : Type} {store : Store (StateM σ)} (faithful : store.Faithful) {s : Session}
    (coherent : s.Coherent) (ordered : s.base.Ordered) (calls : List Call) (state : σ) :
    ∃ added, (s.adoptAll store calls state).1.rules = s.rules ++ added ∧
      (s.adoptAll store calls state).1.mergedSchema =
        added.foldl (fun schema r => schema.withRules [r]) s.mergedSchema := by
  obtain ⟨kept, base, _, added, grown⟩ := adoptAllKeeps faithful coherent calls state
  have compile : ∀ r ∈ s.rules ++ added, r.Compiles :=
    fun r inside => (kept.formed r (grown ▸ inside)).compiles
  have single : (added.map fun r => [r]).flatten = added := by
    rw [← List.flatMap_def, List.flatMap_singleton']
  have each : (added.map fun r => [r]).foldl Schema.withRules (s.base.withRules s.rules) =
      (s.base.withRules s.rules).withRules (added.map fun r => [r]).flatten :=
    Schema.withBatches (Schema.withRulesOrdered ordered s.rules)
      fun r inside => compile r (List.mem_append_right s.rules (single ▸ inside))
  rw [List.foldl_map, single] at each
  refine ⟨added, grown.symm, ?_⟩
  rw [mergedSchema, base, ← grown, Schema.withRulesAppend ordered compile, mergedSchema, each]

end Session

end RuleSchema
