import RuleSchema.Proofs.Admission.Resolution
import RuleSchema.Proofs.Schema.Listing
/-! Suggested fields. The listed path closest to a field that is not found is suggested, and paths
are listed through the elements of arrays, where no field is ever found. So a suggestion made of
proper names can be used exactly when no array lies on its way. -/
namespace RuleSchema

section
variable (field : String)

/-- How much of a field a path begins with. -/
def shared (path : String) : Nat := sharedLength field.toList path.toList

def closer (best : Option String) (path : String) : Option String :=
  if shared field path = 0 then best
  else match best with
    | some b => if shared field b ≤ shared field path then some path else best
    | none => some path

theorem suggestionFold (listed : List String) :
    suggestion? field listed = listed.foldl (closer field) none := rfl

/-- A path that no other has more of the field than, or none where none begins like it. -/
def Closest (listed : List String) : Option String → Prop
  | none => ∀ t ∈ listed, shared field t = 0
  | some s => s ∈ listed ∧ 0 < shared field s ∧ ∀ t ∈ listed, shared field t ≤ shared field s

variable {field}

theorem closerKeeps {seen : List String} {best : Option String} (closest : Closest field seen best)
    (path : String) : Closest field (seen ++ [path]) (closer field best path) := by
  unfold closer
  split
  · rename_i nothing
    cases best with
    | none => exact List.forall_mem_append.mpr ⟨closest, by simpa using nothing⟩
    | some b =>
      obtain ⟨inside, some, most⟩ := closest
      exact ⟨List.mem_append_left _ inside, some,
        List.forall_mem_append.mpr ⟨most, by simp [nothing]⟩⟩
  · rename_i something
    have last : path ∈ seen ++ [path] := List.mem_append_right _ List.mem_cons_self
    cases best with
    | none =>
      refine ⟨last, Nat.pos_of_ne_zero something, List.forall_mem_append.mpr ⟨?_, by simp⟩⟩
      exact fun t inside => closest t inside ▸ Nat.zero_le _
    | some b =>
      obtain ⟨inside, some, most⟩ := closest
      dsimp only
      split
      · rename_i more
        exact ⟨last, Nat.pos_of_ne_zero something, List.forall_mem_append.mpr
          ⟨fun t inside => Nat.le_trans (most t inside) more, by simp⟩⟩
      · rename_i less
        exact ⟨List.mem_append_left _ inside, some, List.forall_mem_append.mpr
          ⟨most, by simpa using Nat.le_of_not_le less⟩⟩

variable (field) in
theorem suggestionClosest (listed : List String) :
    Closest field listed (suggestion? field listed) := by
  rw [suggestionFold]
  suffices ∀ seen best, Closest field seen best →
      Closest field (seen ++ listed) (listed.foldl (closer field) best) from this [] none nofun
  induction listed with
  | nil => simp
  | cons path rest ih =>
    intro seen best closest
    rw [List.append_cons]
    exact ih (seen ++ [path]) _ (closerKeeps closest path)

end

namespace Json

/-- Names that lead to something in a value, from member to member; the first element of an array
is taken for the array. -/
inductive Lists : Json → List String → Prop
  | last {v w : Json} {name : String} (found : v.get? name = some w) : Lists v [name]
  | member {v w : Json} {name : String} {rest : List String} (found : v.get? name = some w)
    (below : Lists w rest) : Lists v (name :: rest)
  | element {v first : Json} {others : List Json} {name : String} {rest : List String}
    (found : v.get? name = some (.array (first :: others)))
    (below : Lists first rest) : Lists v (name :: rest)

theorem Lists.filled {v : Json} {names : List String} (listed : v.Lists names) : names ≠ [] := by
  cases listed <;> exact List.cons_ne_nil _ _

/-- The listed paths of the schema a document shows, in terms of the document. -/
theorem inferLists (config : Config) {document : Json} (ordered : document.Ordered)
    {names : List String} :
    names ∈ (Schema.infer config document).routes ↔ document.Lists names := by
  constructor
  · intro listed
    induction names generalizing document with
    | nil => exact absurd rfl (Schema.routeFilled listed)
    | cons name rest ih =>
      obtain ⟨child, inside, goes⟩ := Schema.inRoutes.mp listed
      have found : (Schema.infer config document).property? name = some child :=
        Keyed.getOfMem (Schema.inferOrdered config ordered).keys inside
      rw [Schema.inferProperty, Option.map_eq_some_iff] at found
      obtain ⟨w, found, rfl⟩ := found
      have below := orderedGet ordered found
      rcases goes with rfl | deeper | behind
      · exact .last found
      · exact .member found (ih below deeper)
      · cases w with
        | null | bool _ | number _ | string _ | object _ => cases behind
        | array elements =>
          cases elements with
          | nil => cases behind
          | cons first others => exact .element found (ih below.1 behind)
  · intro listed
    have property : ∀ {v w : Json} {name : String}, v.get? name = some w →
        (name, Schema.infer config w) ∈ (Schema.infer config v).properties := by
      intro v w name found
      refine Keyed.memOfGet ?_
      have shown := Schema.inferProperty config v name
      rw [found] at shown
      exact shown
    induction listed with
    | last found => exact Schema.inRoutes.mpr ⟨_, property found, .inl rfl⟩
    | member found below ih =>
      exact Schema.inRoutes.mpr ⟨_, property found, .inr (.inl (ih (orderedGet ordered found)))⟩
    | element found below ih =>
      exact Schema.inRoutes.mpr
        ⟨_, property found, .inr (.inr (ih (orderedGet ordered found).1))⟩

/-- No array lies on the way, before its end. -/
def Direct (v : Json) (names : List String) : Prop :=
  ∀ before after, names = before ++ after → after ≠ [] →
    ∀ elements, v.member? before ≠ some (.array elements)

theorem Direct.below {v w : Json} {name : String} {rest : List String}
    (direct : v.Direct (name :: rest)) (found : v.get? name = some w) : w.Direct rest := by
  intro before after split some elements there
  refine direct (name :: before) after (congrArg (name :: ·) split) some elements ?_
  rw [memberCons, found]
  exact there

theorem directOfMember {v w : Json} {names : List String} (found : v.member? names = some w) :
    v.Direct names := by
  rintro before after rfl some elements there
  have stops : (Json.array elements).member? after = none := by
    obtain ⟨name, rest, rfl⟩ := List.exists_cons_of_ne_nil some
    exact memberCons _ name rest
  unfold member? at found there stops
  rw [List.foldl_append, there, stops] at found
  cases found

/-- Names that a listed path is made of can be followed if no array is on the way. -/
theorem Lists.memberIff {v : Json} {names : List String} (listed : v.Lists names) :
    (v.member? names).isSome ↔ v.Direct names := by
  constructor
  · intro found
    obtain ⟨w, found⟩ := Option.isSome_iff_exists.mp found
    exact directOfMember found
  · intro direct
    induction listed with
    | last found => simp [memberCons, found]
    | member found below ih =>
      rw [memberCons, found]
      exact ih (direct.below found)
    | @element v first others name rest found below ih =>
      have array : v.member? [name] = some (.array (first :: others)) := by
        rw [memberCons, found]
        rfl
      exact absurd array (direct [name] rest rfl below.filled _)

end Json

theorem checkOperatorField {r : Rule} (field : String) (fits : r.checkOperator = .ok ()) :
    ({ r with field } : Rule).checkOperator = .ok () := by
  unfold Rule.checkOperator at fits ⊢
  split at fits
  · cases fits
  · rename_i free
    exact if_neg free

namespace Candidate
variable {p : Proposal} {fresh : String} {active : List Rule}

theorem checkShapeOk {shaped : Candidate .shapeValidated} :
    (new p).checkShape fresh active = .ok shaped ↔ ∃ r path, p.toRule fresh = .ok (r, path) ∧
      r.checkOperator = .ok () ∧ (active.any fun q => q.id == r.id) = false ∧
      shaped = (new p).advance .shapeValidated (r, path) rfl := by
  unfold checkShape
  dsimp only [new]
  constructor
  · intro shape
    split at shape
    · cases shape
    · rename_i r path made
      split at shape
      · cases shape
      · rename_i fits
        split at shape
        · cases shape
        · rename_i unused
          cases shape
          exact ⟨r, path, made, fits, eq_false_of_ne_true unused, rfl⟩
  · rintro ⟨r, path, made, fits, unused, rfl⟩
    rw [made]
    dsimp only
    rw [fits, unused]
    rfl

theorem resolveFieldEq (config : Config) (document : Json) (r : Rule) (path : FieldPath) :
    ((new p).advance .shapeValidated (r, path) rfl).resolveField config document =
      match unresolved? config document path with
      | some e =>
        .error (((new p).advance .shapeValidated (r, path) rfl).reject (.fieldNotFound e) rfl)
      | none =>
        .ok (((new p).advance .shapeValidated (r, path) rfl).advance .fieldResolved r rfl) := by
  unfold resolveField unresolved?
  dsimp only [advance]
  cases ((Schema.infer config document).at? path.segments).isNone with
  | true => rfl
  | false => cases (document.member? path.segments).isNone <;> rfl

/-- A proposal of good form keeps it under any field that is a path. -/
theorem checkShapeField {shaped : Candidate .shapeValidated}
    (shape : (new p).checkShape fresh active = .ok shaped) {field : String} {path : FieldPath}
    (parsed : FieldPath.parse field = .ok path) :
    ∃ r, (new { p with field }).checkShape fresh active =
      .ok ((new { p with field }).advance .shapeValidated (r, path) rfl) := by
  obtain ⟨r, own, made, fits, unused, rfl⟩ := checkShapeOk.mp shape
  obtain ⟨_, c, condition, nonempty, rfl⟩ := Proposal.toRuleOk.mp made
  exact ⟨_, checkShapeOk.mpr
    ⟨_, path, Proposal.toRuleOk.mpr ⟨parsed, c, condition, nonempty, rfl⟩,
      checkOperatorField path.text fits, unused, rfl⟩⟩

theorem resolveFieldOk (config : Config) (document : Json) (r : Rule) (path : FieldPath) :
    (((new p).advance .shapeValidated (r, path) rfl).resolveField config document).isOk ↔
      (document.member? path.segments).isSome := by
  rw [resolveFieldEq, unresolvedEq]
  cases document.member? path.segments <;> simp [Except.isOk, Except.toBool]

theorem resolveFieldError {config : Config} {document : Json} {r : Rule} {path : FieldPath}
    {rejected : Candidate .rejected}
    (refused : ((new p).advance .shapeValidated (r, path) rfl).resolveField config document =
      .error rejected) :
    document.member? path.segments = none ∧ rejected.reason = .fieldNotFound
      ⟨path.text, .schema, suggestion? path.text (Schema.infer config document).fieldPaths⟩ := by
  rw [resolveFieldEq, unresolvedEq] at refused
  cases found : document.member? path.segments with
  | none =>
    rw [found] at refused
    cases refused
    exact ⟨rfl, rfl⟩
  | some v =>
    rw [found] at refused
    cases refused

end Candidate

/-- A suggestion is a listed path and none has more of the rejected field. If its names are such
as a path can have, it is read as those names, and a proposal with it in place of the field is
of good form; its field is then found, in both trees, exactly when no array lies on the way. -/
theorem suggestionResolves {config : Config} {document : Json} (ordered : document.Ordered)
    {p : Proposal} {fresh : String} {active : List Rule} {shaped : Candidate .shapeValidated}
    (shape : (Candidate.new p).checkShape fresh active = .ok shaped)
    {rejected : Candidate .rejected}
    (refused : shaped.resolveField config document = .error rejected) {e : FieldNotFound}
    (why : rejected.reason = .fieldNotFound e) {s : String} (suggested : e.suggestion = some s) :
    s ∈ (Schema.infer config document).fieldPaths ∧
    (∃ names, document.Lists names ∧ Schema.dotted names = s) ∧
    0 < shared e.field s ∧
    (∀ t ∈ (Schema.infer config document).fieldPaths, shared e.field t ≤ shared e.field s) ∧
    ∀ names, document.Lists names → Schema.dotted names = s →
      (∀ name ∈ names, FieldPath.Segment name) → Text.trim s = s →
        ∃ path again, FieldPath.parse s = .ok path ∧
          (Candidate.new { p with field := s }).checkShape fresh active = .ok again ∧
          (((Schema.infer config document).at? path.segments).isSome ↔ document.Direct names) ∧
          ((document.member? path.segments).isSome ↔ document.Direct names) ∧
          ((again.resolveField config document).isOk ↔ document.Direct names) ∧
          (document.Direct names → s ≠ e.field) := by
  obtain ⟨r, path, made, _, _, rfl⟩ := Candidate.checkShapeOk.mp shape
  obtain ⟨absent, reason⟩ := Candidate.resolveFieldError refused
  rw [reason] at why
  cases why
  dsimp only at suggested ⊢
  have closest := suggestionClosest path.text (Schema.infer config document).fieldPaths
  rw [suggested] at closest
  obtain ⟨inside, some, most⟩ := closest
  refine ⟨inside, ?_, some, most, ?_⟩
  · rw [Schema.fieldPathsRoutes] at inside
    obtain ⟨names, route, same⟩ := List.mem_map.mp inside
    exact ⟨names, (Json.inferLists config ordered).mp route, same⟩
  · intro names listed same segments trimmed
    have written : Schema.dotted names = Text.joined '.' names :=
      Schema.dottedJoined fun name head => (segments name (List.mem_of_head? head)).nonempty
    rw [← same, written] at trimmed
    have parsed := FieldPath.parseJoined listed.filled segments trimmed
    rw [← written, same] at parsed
    obtain ⟨again, reshaped⟩ := Candidate.checkShapeField shape parsed
    refine ⟨_, _, parsed, reshaped, ?_, listed.memberIff, ?_, ?_⟩
    · rw [Schema.inferAt, Option.isSome_map]
      exact listed.memberIff
    · exact (Candidate.resolveFieldOk config document again _).trans listed.memberIff
    · rintro direct rfl
      -- Read again, the rejected field is its own path, which has no value.
      rw [FieldPath.parseText (Proposal.toRuleOk.mp made).1] at parsed
      cases parsed
      have found := listed.memberIff.mpr direct
      rw [absent] at found
      cases found

namespace Sample

def about (field : String) : Proposal := ⟨some "a", field, ">", "0", none⟩

end Sample

open Sample in
theorem suggestionResolvesPaid : ∃ shaped rejected e,
    (Candidate.new (about "totals.payed")).checkShape "fresh" [] = .ok shaped ∧
    shaped.resolveField .standard invoice = .error rejected ∧
    rejected.reason = .fieldNotFound e ∧ e.suggestion = some "totals.paid" ∧
    ∃ path again, FieldPath.parse "totals.paid" = .ok path ∧
      (Candidate.new (about "totals.paid")).checkShape "fresh" [] = .ok again ∧
      (again.resolveField .standard invoice).isOk ∧ "totals.paid" ≠ e.field := by
  obtain ⟨shaped, rejected, e, shape, refused, why, suggested⟩ : ∃ shaped rejected e,
      (Candidate.new (about "totals.payed")).checkShape "fresh" [] = .ok shaped ∧
      shaped.resolveField .standard invoice = .error rejected ∧
      rejected.reason = .fieldNotFound e ∧ e.suggestion = some "totals.paid" :=
    ⟨_, _, _, rfl, rfl, rfl, rfl⟩
  have listed : invoice.Lists ["totals", "paid"] := .member rfl (.last rfl)
  have direct : invoice.Direct ["totals", "paid"] := listed.memberIff.mp (by decide)
  have segments : ∀ name ∈ ["totals", "paid"], FieldPath.Segment name :=
    List.forall_mem_cons.mpr ⟨⟨by decide, by decide⟩,
      List.forall_mem_singleton.mpr ⟨by decide, by decide⟩⟩
  obtain ⟨_, _, _, _, resolves⟩ :=
    suggestionResolves invoiceOrdered shape refused why suggested
  obtain ⟨path, again, parsed, reshaped, _, _, found, differs⟩ :=
    resolves ["totals", "paid"] listed (by decide) segments (by decide)
  exact ⟨shaped, rejected, e, shape, refused, why, suggested, path, again, parsed, reshaped,
    found.mpr direct, differs direct⟩

/-- A proposal is refused and the text suggested in its place is found in neither tree. -/
def Misled (document : Json) (p : Proposal) (s : String) : Prop :=
  ∃ shaped rejected e path, (Candidate.new p).checkShape "fresh" [] = .ok shaped ∧
    shaped.resolveField .standard document = .error rejected ∧
    rejected.reason = .fieldNotFound e ∧ e.suggestion = some s ∧
    FieldPath.parse s = .ok path ∧ (Schema.infer .standard document).at? path.segments = none ∧
    document.member? path.segments = none

open Sample in
/-- A field behind an array is suggested for itself, and so are a name with a dot and a name below
an empty one; a name with a blank at its end is suggested for the name without. -/
theorem suggestionMisleads : Misled basket behind "lines.qty" ∧
    Misled (.object [("net.due", amount 1)]) (about "net.due") "net.due" ∧
    Misled (.object [("", .object [("due", amount 1)])]) (about "due") "due" ∧
    Misled (.object [("due ", amount 1)]) (about "due") "due " :=
  ⟨⟨_, _, _, ⟨["lines", "qty"], by decide, by decide⟩, rfl, rfl, rfl, rfl, rfl, rfl, rfl⟩,
    ⟨_, _, _, ⟨["net", "due"], by decide, by decide⟩, rfl, rfl, rfl, rfl, rfl, rfl, rfl⟩,
    ⟨_, _, _, ⟨["due"], by decide, by decide⟩, rfl, rfl, rfl, rfl, rfl, rfl, rfl⟩,
    ⟨_, _, _, ⟨["due"], by decide, by decide⟩, rfl, rfl, rfl, rfl, rfl, rfl, rfl⟩⟩

end RuleSchema
