import RuleSchema.Proofs.Json.Quotation
import RuleSchema.Proofs.Validation.OwnSchema
/-! Members that a document misses. A schema finds each missing name once, at the object it is
missing from, and finds it at no other place. Of the schema a sample shows, every such finding
is of a name that is not optional, and what is hidden of them is hidden for its top-level member. -/
namespace RuleSchema

/-- What is reported of the object at a place when it lacks a member. -/
def Issue.absence (place : List String) (name : String) : Issue :=
  ⟨Pointer.ofTokens place, Json.stringText name ++ " is a required property", .schema⟩

namespace Issue

theorem absencePlace {place other : List String} {name wanted : String}
    (same : absence place name = absence other wanted) : place = other := by
  have tokens := congrArg (fun i => Pointer.tokens? i.path) same
  simpa [absence, Pointer.tokensOfTokens] using tokens

theorem absenceName {place other : List String} {name wanted : String}
    (same : (absence place name).message = (absence other wanted).message) : name = wanted := by
  have chars := congrArg String.toList same
  simp only [absence, String.toList_append] at chars
  exact Json.stringTextInjective (String.toList_injective (List.append_cancel_right chars))

end Issue

namespace Violation

/-- Whether a violation is that the object at a place lacks a member. -/
def misses (place : List String) (name : String) (v : Violation) : Bool :=
  v.place == place && v.breach == .missing name

theorem missedPlace {v : Violation} {place : List String} {name : String}
    (missed : v.misses place name = true) : v.place = place := by
  rw [misses, Bool.and_eq_true] at missed
  exact beq_iff_eq.mp missed.1

theorem missedBreach {v : Violation} {place : List String} {name : String}
    (missed : v.misses place name = true) : v.breach = .missing name := by
  rw [misses, Bool.and_eq_true] at missed
  exact beq_iff_eq.mp missed.2

/-- What a schema without keywords can find: a wrong kind, or a missing name that counts. -/
inductive Structural (config : Config) : Breach → Prop where
  | kind (kind : Kind) : Structural config (.wrongKind kind)
  | missing {name : String} (counts : config.isOptional name = false) :
      Structural config (.missing name)

/-- The text on a wrong kind ends with a quotation mark, the text on an absence does not. -/
theorem kindMessage (place other : List String) (v : Json) (kind : Kind) (name : String) :
    message ⟨place, v, .wrongKind kind⟩ ≠ (Issue.absence other name).message := by
  intro same
  have last := congrArg (fun text => text.toList.getLast?) same
  simp [message, Issue.absence, Json.stringText, List.getLast?_append, List.getLast?_cons] at last

theorem structuralCounts {config : Config} {name : String}
    (structural : Structural config (.missing name)) : config.isOptional name = false := by
  cases structural
  assumption

theorem structuralMessage {config : Config} {v : Violation}
    (structural : Structural config v.breach) {place : List String} {name : String}
    (same : v.message = (Issue.absence place name).message) : v.breach = .missing name := by
  obtain ⟨own, value, breach⟩ := v
  cases structural with
  | kind kind => exact absurd same (kindMessage own place value kind name)
  | @missing lacked _ =>
    have text : (Issue.absence own lacked).message = (Issue.absence place name).message := same
    exact congrArg Breach.missing (Issue.absenceName text)

theorem structuralAbsence {config : Config} {v : Violation}
    (structural : Structural config v.breach) (place : List String) (name : String) :
    (v.toIssue == .absence place name) = v.misses place name := by
  rw [Bool.eq_iff_iff, beq_iff_eq, misses, Bool.and_eq_true, beq_iff_eq, beq_iff_eq]
  constructor
  · intro same
    have breach := structuralMessage structural (congrArg Issue.message same)
    obtain ⟨own, value, _⟩ := v
    cases breach
    exact ⟨Issue.absencePlace same, rfl⟩
  · rintro ⟨rfl, breach⟩
    obtain ⟨own, value, _⟩ := v
    cases breach
    rfl

end Violation

theorem Keyed.countAt {α β : Type} {m : Keyed α} {key : String} {value : α}
    (ordered : Ordered m) (found : m.get? key = some value) {f : String × α → List β}
    {p : β → Bool} (elsewhere : ∀ q ∈ m, q.1 ≠ key → ∀ x ∈ f q, ¬p x = true) :
    (m.flatMap f).countP p = (f (key, value)).countP p := by
  induction m with
  | nil => simp [get?] at found
  | cons q rest ih =>
    obtain ⟨k, v⟩ := q
    rw [List.flatMap_cons, List.countP_append]
    by_cases same : k = key
    · subst same
      have here : v = value := by simpa [get?] using found
      subst here
      have none : (rest.flatMap f).countP p = 0 := by
        rw [List.countP_eq_zero]
        intro x inside
        obtain ⟨r, there, among⟩ := List.mem_flatMap.mp inside
        refine elsewhere r (List.mem_cons_of_mem _ there) (fun again => ?_) x among
        exact headKeyFresh ordered (again ▸ List.mem_map.mpr ⟨r, there, rfl⟩)
      rw [none, Nat.add_zero]
    · have below : get? rest key = some value := by simpa [get?, same] using found
      rw [List.countP_eq_zero.mpr (elsewhere (k, v) List.mem_cons_self same), Nat.zero_add]
      exact ih (List.pairwise_cons.mp ordered).2 below fun r inside =>
        elsewhere r (List.mem_cons_of_mem _ inside)

theorem Constraints.keywordPresent {c : Constraints} {v : Json} {name : String} :
    .missing name ∉ c.breaches v := by
  intro inside
  simp only [breaches, List.mem_append, Option.mem_toList] at inside
  rcases inside with ((unmet | above) | below) | met
  · obtain ⟨values, _, found⟩ := List.mem_filterMap.mp unmet
    split at found <;> cases found
  · cases v with
    | number n =>
      obtain ⟨limit, _, found⟩ := Option.bind_eq_some_iff.mp above
      dsimp only at found
      split at found <;> cases found
    | null | bool _ | string _ | array _ | object _ => cases above
  · cases v with
    | number n =>
      obtain ⟨limit, _, found⟩ := Option.bind_eq_some_iff.mp below
      dsimp only at found
      split at found <;> cases found
    | null | bool _ | string _ | array _ | object _ => cases below
  · obtain ⟨values, _, found⟩ := List.mem_filterMap.mp met
    split at found <;> cases found

namespace Schema
open Violation
variable {switches : FormatSwitches}

theorem formatPresent {format : Option String} {v : Json} {name : String} :
    formatBreach? switches format v ≠ some (.missing name) := by
  intro found
  cases v with
  | string s =>
    obtain ⟨f, _, breach⟩ := Option.bind_eq_some_iff.mp found
    split at breach <;> cases breach
  | null | bool _ | number _ | array _ | object _ => cases found

theorem countOwn {breaches : List Breach} {name : String} (absent : .missing name ∉ breaches)
    (place target : List String) (v : Json) :
    (breaches.map (Violation.mk place v)).countP (misses target name) = 0 := by
  rw [List.countP_eq_zero]
  intro w inside missed
  obtain ⟨b, among, rfl⟩ := List.mem_map.mp inside
  exact absent (missedBreach missed ▸ among)

theorem countNames (names place target : List String) (v : Json) (name : String) :
    (names.map fun n => (⟨place, v, .missing n⟩ : Violation)).countP (misses target name) =
      if place = target then names.count name else 0 := by
  rw [List.countP_map]
  split
  · rename_i here
    exact List.countP_congr fun n _ => by simp [misses, here]
  · rename_i away
    exact List.countP_eq_zero.mpr fun n _ => by simp [misses, away]

/-- The absences of a node at a place are those its items and properties find there, and those of
the names it requires itself if it is the place. -/
theorem countMisses (s : Schema) (place target : List String) (v : Json) (name : String) :
    (s.violations switches place v).countP (misses target name) =
      (itemViolations switches place s.items v).countP (misses target name) +
      (propertyViolations switches place s.properties v).countP (misses target name) +
      if place = target then (missingNames s.required v).count name else 0 := by
  have keywords : .missing name ∉ s.constraints.breaches v := Constraints.keywordPresent
  simp only [Constraints.breaches, List.mem_append, not_or] at keywords
  obtain ⟨⟨⟨unmet, above⟩, below⟩, met⟩ := keywords
  have format : .missing name ∉ (formatBreach? switches s.format v).toList := by
    simpa using formatPresent
  have kind : (if s.kind.admits v then [] else
      [(⟨place, v, .wrongKind s.kind⟩ : Violation)]).countP (misses target name) = 0 := by
    split <;> simp [misses]
  rw [violationsEq]
  simp only [List.countP_append, countOwn unmet, countOwn above, countOwn below, countOwn met,
    countOwn format, countNames, kind]
  omega

theorem propertyElsewhere {properties : List (String × Schema)} {place : List String} {v : Json}
    {name : String} :
    (propertyViolations switches place properties v).countP (misses place name) = 0 := by
  rw [List.countP_eq_zero]
  intro w inside missed
  obtain ⟨own, child, x, _, _, deeper⟩ := inPropertyViolations.mp inside
  obtain ⟨tail, whole⟩ := violationsPlace deeper
  simp [missedPlace missed] at whole

/-- Along members that a schema declares, a name is missing from an object as often as the node
there requires it. -/
theorem missesAt {s node : Schema} {path place : List String} {v : Json}
    {members : List (String × Json)} (ordered : s.Ordered) (declared : s.at? path = some node)
    (present : v.member? path = some (.object members)) (name : String) :
    (s.violations switches place v).countP (misses (place ++ path) name) =
      (missingNames node.required (.object members)).count name := by
  induction path generalizing s place v with
  | nil =>
    cases declared
    cases present
    rw [List.append_nil, countMisses, objectItems, propertyElsewhere, if_pos rfl]
    simp
  | cons own rest ih =>
    rw [atCons] at declared
    rw [Json.memberCons] at present
    obtain ⟨child, there, below⟩ := Option.bind_eq_some_iff.mp declared
    obtain ⟨x, found, inside⟩ := Option.bind_eq_some_iff.mp present
    cases v with
    | null | bool _ | number _ | string _ | array _ => cases found
    | object ms =>
      have away : place ≠ place ++ own :: rest := by simp
      have deeper : (child.violations switches (place ++ [own]) x).countP
          (misses (place ++ [own] ++ rest) name) =
            (missingNames node.required (.object members)).count name :=
        ih (ordered.child there) below inside
      rw [List.append_assoc, List.singleton_append] at deeper
      rw [countMisses, objectItems, propertyViolationsEq, if_neg away,
        Keyed.countAt ordered.keys there]
      · simpa [found] using deeper
      · intro q _ differs w among missed
        obtain ⟨y, _, further⟩ := List.mem_flatMap.mp among
        obtain ⟨tail, whole⟩ := violationsPlace further
        rw [missedPlace missed, List.append_assoc, List.singleton_append] at whole
        exact differs (List.cons.inj (List.append_cancel_left whole)).1

variable {config : Config}

theorem inferStructural {sample v : Json} {place : List String} {w : Violation}
    (inside : w ∈ (infer config sample).violations switches place v) :
    Structural config w.breach := by
  induction sample using Json.valueInduction generalizing place v with
  | null | bool _ | number _ | string _ => exact (bareFinds inside).2 ▸ .kind _
  | array elements each =>
    rcases plainFinds rfl rfl inside with below | below | ⟨name, absent, _⟩ | ⟨_, own⟩
    · cases v with
      | array values =>
        obtain ⟨⟨x, i⟩, _, deeper⟩ := List.mem_flatMap.mp below
        cases elements with
        | nil => exact (bareFinds deeper).2 ▸ .kind _
        | cons first rest => exact each first List.mem_cons_self deeper
      | null | bool _ | number _ | string _ | object _ => cases below
    · cases below
    · cases v <;> cases absent
    · exact own ▸ .kind _
  | object members each =>
    rcases plainFinds rfl rfl inside with below | below | ⟨name, absent, own⟩ | ⟨_, own⟩
    · cases below
    · obtain ⟨name, child, x, declared, _, deeper⟩ := inPropertyViolations.mp below
      obtain ⟨q, there, same⟩ := inInferMembers config declared
      cases same
      exact each q there deeper
    · cases v with
      | object fields =>
        exact own ▸ .missing ((inferRequires config).mp (List.mem_filter.mp absent).1).2
      | null | bool _ | number _ | string _ | array _ => cases absent
    · exact own ▸ .kind _

end Schema

namespace Engine
open Violation

/-- A name that counts is missed in silence only at or under an optional member. -/
theorem exemptAbsence {config : Config} (named : "" ∉ config.optionalFields) {place : List String}
    {name : String} {w : Violation} (missed : w.misses place name = true)
    (counts : config.isOptional name = false) :
    w.isExempt config = place.head?.any config.isOptional := by
  obtain ⟨own, value, breach⟩ := w
  cases missedPlace missed
  cases missedBreach missed
  cases own with
  | nil =>
    rw [isExempt, topLevelFieldRoot]
    exact counts
  | cons top rest =>
    rw [isExempt, topLevelFieldUnder]
    by_cases empty : top = ""
    · subst empty
      simpa [Config.isOptional] using named
    · rw [if_neg empty]
      rfl

section
variable {e : Engine} {sample : Json} (shows : e.schema = Schema.infer e.config sample)
include shows

theorem shownStructural (document : Json) :
    ∀ w ∈ e.violations document, Structural e.config w.breach := by
  intro w inside
  rw [violations, shows] at inside
  exact Schema.inferStructural inside

theorem countAbsences (document : Json) (place : List String) (name : String) :
    (e.schemaIssues document).count (.absence place name) =
      (e.violations document).countP fun w => w.misses place name && !w.isExempt e.config := by
  rw [schemaIssues, List.count, List.countP_map, List.countP_filter]
  refine List.countP_congr fun w inside => ?_
  rw [Function.comp_apply, structuralAbsence (shownStructural shows document w inside)]

theorem shownMisses (ordered : sample.Ordered) {document : Json} {place : List String}
    {fields members : List (String × Json)} {name : String}
    (declared : sample.member? place = some (.object fields))
    (present : document.member? place = some (.object members))
    (inside : name ∈ Keyed.keys fields) (absent : name ∉ Keyed.keys members)
    (counts : e.config.isOptional name = false) :
    (e.violations document).countP (misses place name) = 1 := by
  have node : e.schema.at? place = some (Schema.infer e.config (.object fields)) := by
    rw [shows, Schema.inferAt, declared]
    rfl
  have keys : e.schema.Ordered := shows ▸ Schema.inferOrdered e.config ordered
  have missing : name ∈ missingNames (Schema.infer e.config (.object fields)).required
      (.object members) := by
    rw [missingNames, List.mem_filter, Keyed.getNone.mpr absent]
    exact ⟨(Schema.inferRequires e.config).mpr ⟨inside, counts⟩, rfl⟩
  have once : (missingNames (Schema.infer e.config (.object fields)).required
      (.object members)).Nodup :=
    (Schema.faultNone.mp (Schema.inferSound e.config _)).2.2.2.filter _
  have found : (e.violations document).countP (misses ([] ++ place) name) = _ :=
    Schema.missesAt keys node present name
  rw [List.nil_append] at found
  rw [found, once.count, if_pos missing]

end

/-- The engine of a sample reports each member of the sample that an object of a document lacks
exactly once, at that object, unless the member or the top-level member it is under is optional;
then it is not reported. No issue is ever the absence of an optional name. -/
theorem absencesReported {config : Config} {sample : Json} (named : "" ∉ config.optionalFields)
    (ordered : sample.Ordered) :
    ∃ engine, ofSample sample [] config = .ok engine ∧
      (∀ document place fields members name, sample.member? place = some (.object fields) →
        document.member? place = some (.object members) → name ∈ Keyed.keys fields →
        name ∉ Keyed.keys members →
          (engine.schemaIssues document).count (.absence place name) =
            if config.isOptional name || place.head?.any config.isOptional then 0 else 1) ∧
      ∀ document, ∀ issue ∈ engine.schemaIssues document, ∀ name place,
        config.isOptional name = true → issue.message ≠ (Issue.absence place name).message := by
  refine ⟨_, ofSampleSound config sample, ?_, ?_⟩
  · intro document place fields members name declared present inside absent
    rw [countAbsences rfl]
    cases optional : config.isOptional name with
    | true =>
      rw [Bool.true_or, if_pos rfl, List.countP_eq_zero]
      intro w among counted
      rw [Bool.and_eq_true] at counted
      have breach := missedBreach counted.1
      have counts := structuralCounts (breach ▸ shownStructural rfl document w among)
      rw [optional] at counts
      cases counts
    | false =>
      have hidden : ∀ w : Violation, (w.misses place name && !w.isExempt config) =
          (w.misses place name && !place.head?.any config.isOptional) := by
        intro w
        cases missed : w.misses place name with
        | true => rw [exemptAbsence named missed optional]
        | false => rfl
      simp only [hidden, Bool.false_or]
      cases place.head?.any config.isOptional with
      | true => simp
      | false => simpa using shownMisses rfl ordered declared present inside absent optional
  · intro document issue inside name place optional same
    obtain ⟨w, among, rfl⟩ := List.mem_map.mp inside
    have structural := shownStructural rfl document w (List.mem_filter.mp among).1
    have counts := structuralCounts (structuralMessage structural same ▸ structural)
    rw [optional] at counts
    cases counts

end Engine

namespace Sample

/-- An order that has an optional `po` at two depths. -/
def shipment : Json :=
  .object [("po", .object [("line", amount 1)]),
    ("totals", .object [("due", amount 500), ("po", .null)])]

def unfilled : Json := .object [("po", .object []), ("totals", .object [])]

end Sample

namespace Engine
open Sample

theorem absencesReportedShipment :
    ∃ engine, ofSample shipment [] (Config.standard.withOptionalFields ["po"]) = .ok engine ∧
      (engine.schemaIssues unfilled).count (.absence ["totals"] "due") = 1 ∧
      (engine.schemaIssues unfilled).count (.absence ["totals"] "po") = 0 ∧
      (engine.schemaIssues unfilled).count (.absence ["po"] "line") = 0 ∧
      ∀ issue ∈ engine.schemaIssues unfilled, issue.message ≠ (Issue.absence [] "po").message := by
  have ordered : shipment.Ordered := by
    simp only [shipment, amount, Json.Ordered, Json.OrderedMembers, Keyed.Ordered, Keyed.keys]
    decide
  have named : "" ∉ (Config.standard.withOptionalFields ["po"]).optionalFields := by decide
  have totals : shipment.member? ["totals"] =
      some (.object [("due", amount 500), ("po", .null)]) := by decide +kernel
  have po : shipment.member? ["po"] = some (.object [("line", amount 1)]) := by decide +kernel
  have noTotals : unfilled.member? ["totals"] = some (.object []) := by decide +kernel
  have noPo : unfilled.member? ["po"] = some (.object []) := by decide +kernel
  obtain ⟨engine, made, counted, silent⟩ := absencesReported named ordered
  refine ⟨engine, made, ?_, ?_, ?_, fun issue inside => silent unfilled issue inside "po" [] rfl⟩
  · exact counted _ _ _ _ "due" totals noTotals (by decide) (by decide)
  · exact counted _ _ _ _ "po" totals noTotals (by decide) (by decide)
  · exact counted _ _ _ _ "line" po noPo (by decide) (by decide)

end Engine

end RuleSchema
