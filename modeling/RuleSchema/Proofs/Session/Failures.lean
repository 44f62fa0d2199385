import RuleSchema.Proofs.Session.Runs
import RuleSchema.Proofs.Store.Mishaps
/-! Adoptions that fail. A rule that is not admitted reaches no store, and one that cannot be saved
leaves the session and whatever the store answers as they were, whichever step of the saving broke.
Once a rule is saved nothing that befalls the schema takes it back. -/
namespace RuleSchema

namespace Session
variable {s next : Session} {c : Call}

theorem adoptRejected {m : Type → Type} [Monad m] (store : Store m) {e : Rejection}
    (rejected : s.addRule c.fresh c.proposal c.document = .error e) :
    s.adopt store c.fresh c.proposal c.document = pure (.error e, s) := by
  simp only [adopt, rejected]

section
variable {σ : Type} {store : Store (StateM σ)} {before saved after : σ}

/-- A failed adoption ended before the store was called, or with the saving of the rule. -/
theorem adoptFails {e : Rejection}
    (failed : s.adopt store c.fresh c.proposal c.document before = ((.error e, next), after)) :
    next = s ∧ (after = before ∨
      ∃ r failure, store.saveRule r before = (.error failure, after)) := by
  rcases adoptCases store s c.fresh c.proposal c.document before with
    ⟨_, _, ends⟩ | ⟨r, failure, _, _, saving, ends⟩ | ⟨_, _, _, _, _, ends⟩
  · cases ends.symm.trans failed
    exact ⟨rfl, .inl rfl⟩
  · cases ends.symm.trans failed
    exact ⟨rfl, .inr ⟨r, failure, saving⟩⟩
  · cases ends.symm.trans failed

theorem adoptSaved {r answer : Rule} (admitted : s.addRule c.fresh c.proposal c.document = .ok r)
    (saving : store.saveRule r before = (.ok answer, saved)) :
    s.adopt store c.fresh c.proposal c.document before = ((.ok answer, s.extend answer),
      (store.upsertSchema s.config.schemaName (s.extend answer).mergedSchema.toJson saved).2) := by
  rw [adoptEq, admitted]
  simp only [saving]
  rfl

end

section
variable {path : String} {before saved after : Disk}

theorem changeAnswerFails {α : Type} {answer : Unit → α} {change : Records → Records}
    {failure : StoreError}
    (failed : ((Store.changeFile .onDisk path change before).1.map answer,
      (Store.changeFile .onDisk path change before).2) = (.error failure, after)) {name : String}
    (other : name ≠ Store.siblingPath path) : after.files.get? name = before.files.get? name := by
  cases ends : Store.changeFile .onDisk path change before with
  | mk result final =>
    rw [ends] at failed
    cases result with
    | ok => cases failed
    | error e =>
      cases failed
      exact Store.changeFileFails ends other

theorem savingFails {r : Rule} {failure : StoreError}
    (failed : (Store.file .onDisk path).saveRule r before = (.error failure, after)) {name : String}
    (other : name ≠ Store.siblingPath path) : after.files.get? name = before.files.get? name := by
  rw [Store.fileSaveRule] at failed
  exact changeAnswerFails failed other

theorem upsertFails {schemaName : String} {content : Json} {failure : StoreError}
    (failed : (Store.file .onDisk path).upsertSchema schemaName content before =
      (.error failure, after)) {name : String} (other : name ≠ Store.siblingPath path) :
    after.files.get? name = before.files.get? name := by
  rw [Store.fileUpsertSchema] at failed
  exact changeAnswerFails failed other

theorem savingDone {r answer : Rule}
    (done : (Store.file .onDisk path).saveRule r before = (.ok answer, saved)) :
    answer = r ∧ ∃ old, (Store.readFile .onDisk path before).1 = .ok old ∧
      saved.files.get? path = some (old.saveRule r).encode := by
  rw [Store.fileSaveRule] at done
  cases ends : Store.changeFile .onDisk path (fun records => records.saveRule r) before with
  | mk result final =>
    rw [ends] at done
    cases result with
    | error e => cases done
    | ok =>
      cases done
      exact ⟨rfl, Store.changeFileDone ends⟩

end

/-- An adoption that fails leaves the session as it was. Before a rule is admitted it calls no
store, the store in memory is left as it was, and a store in a file answers as before, as only the
file beside that one can have changed. Where only the storing of the schema fails, the adoption
answers with the rule, the session has it, the store answers as it did with the rule just saved,
and the file is that of the records with it. -/
theorem failureSpares (s : Session) (c : Call) :
    (∀ e, s.addRule c.fresh c.proposal c.document = .error e →
      ∀ (m : Type → Type) [Monad m] (store : Store m),
        s.adopt store c.fresh c.proposal c.document = pure (.error e, s)) ∧
    (∀ (σ : Type) (store : Store (StateM σ)) (before after : σ) (e : Rejection) (next : Session),
      s.adopt store c.fresh c.proposal c.document before = ((.error e, next), after) → next = s) ∧
    (∀ (before after : Records) (e : Rejection) (next : Session),
      s.adopt (Store.memory : Store (StateM Records)) c.fresh c.proposal c.document before =
          ((.error e, next), after) → after = before) ∧
    (∀ (path : String) (before after : Disk) (e : Rejection) (next : Session),
      s.adopt (Store.file .onDisk path) c.fresh c.proposal c.document before =
          ((.error e, next), after) →
        (∀ name, name ≠ Store.siblingPath path →
          after.files.get? name = before.files.get? name) ∧
        ∀ fate, (Store.file .onDisk path).AnswersAlike ⟨before.files, fate⟩ ⟨after.files, fate⟩) ∧
    ∀ (path : String) (before saved after : Disk) (r answer : Rule) (failure : StoreError),
      s.addRule c.fresh c.proposal c.document = .ok r →
      (Store.file .onDisk path).saveRule r before = (.ok answer, saved) →
      (Store.file .onDisk path).upsertSchema s.config.schemaName
          (s.extend answer).mergedSchema.toJson saved = (.error failure, after) →
        s.adopt (Store.file .onDisk path) c.fresh c.proposal c.document before =
          ((.ok r, s.extend r), after) ∧
        (∀ fate, (Store.file .onDisk path).AnswersAlike ⟨saved.files, fate⟩
          ⟨after.files, fate⟩) ∧
        ∃ old, (Store.readFile .onDisk path before).1 = .ok old ∧
          after.files.get? path = some (old.saveRule r).encode ∧ r ∈ (old.saveRule r).rules ∧
          ((∀ p ∈ old.schemas, Json.Readable (Json.greatestNesting - 3) p.2.content) →
            ((Store.file .onDisk path).rules ⟨after.files, []⟩).1 =
              .ok (old.saveRule r).rules) := by
  refine ⟨fun e rejected m _ store => adoptRejected store rejected,
    fun σ store before after e next failed => (adoptFails failed).1,
    fun before after e next failed => ?_, fun path before after e next failed => ?_, ?_⟩
  · obtain ⟨_, same | ⟨r, failure, saving⟩⟩ := adoptFails failed
    · exact same
    · cases saving
  · have kept : ∀ name, name ≠ Store.siblingPath path →
        after.files.get? name = before.files.get? name := by
      intro name other
      obtain ⟨_, same | ⟨r, failure, saving⟩⟩ := adoptFails failed
      · rw [same]
      · exact savingFails saving other
    exact ⟨kept, Store.heldAlike (kept path (Store.siblingDiffers path).symm)⟩
  · intro path before saved after r answer failure admitted saving unpublished
    obtain ⟨rfl, old, read, held⟩ := savingDone saving
    have kept := upsertFails unpublished (Store.siblingDiffers path).symm
    have text : after.files.get? path = some (old.saveRule answer).encode := kept.trans held
    refine ⟨?_, Store.heldAlike kept, old, read, text, Records.inPutRule old.rules,
      fun readable => ?_⟩
    · rw [adoptSaved admitted saving, unpublished]
    · have ordered := Records.saveRuleOrdered (Store.readFileOrdered _ path before read) answer
      rw [Store.fileRules, Store.readHeld path after.files text,
        Records.decodeEncode ordered (Records.roundTripsOf readable)]
      rfl

end Session

namespace Sample

def paidRule : Rule := rule "low" "totals.paid" .greater "10"

/-- A file without records, on a disk that fails once some operations have gone well. -/
def failing (fine : Nat) : Disk :=
  ⟨[("rules.json", "\x7b\x7d")],
    List.replicate fine none ++ [some ⟨"no space left", some "torn"⟩]⟩

def diskStore : Store (StateM Disk) := Store.file .onDisk "rules.json"

end Sample

theorem okOfOption {ε α : Type} {result : Except ε α} {a : α} (some : result.toOption = some a) :
    result = .ok a := by
  cases result with
  | error e => cases some
  | ok b => exact congrArg Except.ok (Option.some.inj some)

namespace Session

open Sample in
theorem failureSparesTorn :
    (∃ e after, invoiceSession.adopt diskStore low.fresh low.proposal low.document (failing 2) =
          ((.error e, invoiceSession), after) ∧
      after.files.get? "rules.json.tmp" = some "torn" ∧
      diskStore.AnswersAlike ⟨(failing 2).files, []⟩ ⟨after.files, []⟩) ∧
    ∃ after, invoiceSession.adopt diskStore low.fresh low.proposal low.document (failing 5) =
          ((.ok paidRule, invoiceSession.extend paidRule), after) ∧
      (diskStore.rules ⟨after.files, []⟩).1 = .ok [paidRule] := by
  obtain ⟨_, session, _, file, unpublished⟩ := failureSpares invoiceSession low
  constructor
  · have torn : (invoiceSession.adopt diskStore low.fresh low.proposal low.document
        (failing 2)).1.1.isOk = false ∧
        (invoiceSession.adopt diskStore low.fresh low.proposal low.document
          (failing 2)).2.files.get? "rules.json.tmp" = some "torn" := by
      decide +kernel
    cases ends : invoiceSession.adopt diskStore low.fresh low.proposal low.document
        (failing 2) with
    | mk turn after =>
      obtain ⟨answer, next⟩ := turn
      rw [ends] at torn
      cases answer with
      | ok r => cases torn.1
      | error e =>
        have same := session _ _ _ _ _ _ ends
        subst same
        exact ⟨e, after, rfl, torn.2, (file _ _ _ _ _ ends).2 []⟩
  · have admitted : invoiceSession.addRule low.fresh low.proposal low.document = .ok paidRule :=
      okOfOption (by decide +kernel)
    have saved : (diskStore.saveRule paidRule (failing 5)).1 = .ok paidRule :=
      okOfOption (by decide +kernel)
    have saving := (Prod.eta (diskStore.saveRule paidRule (failing 5))).symm
    rw [saved] at saving
    have missed : (diskStore.upsertSchema invoiceSession.config.schemaName
        (invoiceSession.extend paidRule).mergedSchema.toJson
        (diskStore.saveRule paidRule (failing 5)).2).1.isOk = false := by
      decide +kernel
    cases failed : diskStore.upsertSchema invoiceSession.config.schemaName
        (invoiceSession.extend paidRule).mergedSchema.toJson
        (diskStore.saveRule paidRule (failing 5)).2 with
    | mk result after =>
      rw [failed] at missed
      cases result with
      | ok record => cases missed
      | error failure =>
        obtain ⟨ends, _, old, read, _, _, listed⟩ := unpublished "rules.json" (failing 5) _ after
          paidRule paidRule failure admitted saving failed
        have known : (Store.readFile .onDisk "rules.json" (failing 5)).1 = .ok .empty :=
          okOfOption (by decide +kernel)
        rw [known] at read
        cases read
        exact ⟨after, ends, listed nofun⟩

end Session

end RuleSchema
