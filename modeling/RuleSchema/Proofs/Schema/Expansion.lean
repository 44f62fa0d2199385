import RuleSchema.Proofs.Schema.References
/-! What an expanded document is. A document without references is its own expansion; an expanded
one has none, unless an object has under `$ref` a reference that comes to a text. -/
namespace RuleSchema

theorem sameImages {α β γ : Type} {f : α → γ} {g : β → γ} {xs : List α} {ys : List β}
    (same : ys.map g = xs.map f) :
    (∀ y ∈ ys, ∃ x ∈ xs, f x = g y) ∧ ∀ x ∈ xs, ∃ y ∈ ys, g y = f x := by
  constructor
  · intro y inside
    have image : g y ∈ xs.map f := same ▸ List.mem_map.mpr ⟨y, inside, rfl⟩
    exact List.mem_map.mp image
  · intro x inside
    have image : f x ∈ ys.map g := same ▸ List.mem_map.mpr ⟨x, inside, rfl⟩
    exact List.mem_map.mp image

namespace Json

/-- Stands somewhere in a value. -/
inductive Part : Json → Json → Prop
  | whole {v : Json} : Part v v
  | element {elements : List Json} {v w : Json} (inside : v ∈ elements) (below : Part v w) :
      Part (.array elements) w
  | member {members : List (String × Json)} {p : String × Json} {w : Json}
      (inside : p ∈ members) (below : Part p.2 w) : Part (.object members) w

/-- No object in the value has a text under `$ref`. -/
def Plain (v : Json) : Prop :=
  ∀ members s, Part v (.object members) → Keyed.get? members "$ref" ≠ some (.string s)

theorem isReference {members : List (String × Json)} {s : String} :
    reference? members = some s ↔ Keyed.get? members "$ref" = some (.string s) := by
  unfold reference?
  cases Keyed.get? members "$ref" with
  | none => simp
  | some v => cases v <;> simp

theorem inReferences {v : Json} {r : String} : r ∈ v.references ↔
    ∃ members, Part v (.object members) ∧ reference? members = some r := by
  constructor
  · intro there
    induction v using valueInduction with
    | null | bool _ | number _ | string _ => cases there
    | array elements each =>
      rw [references, elementReferencesEq] at there
      obtain ⟨v, inside, below⟩ := List.mem_flatMap.mp there
      obtain ⟨members, part, own⟩ := each v inside below
      exact ⟨members, .element inside part, own⟩
    | object members each =>
      rw [references, memberReferencesEq] at there
      rcases List.mem_append.mp there with own | deeper
      · exact ⟨members, .whole, Option.mem_toList.mp own⟩
      · obtain ⟨p, inside, below⟩ := List.mem_flatMap.mp deeper
        obtain ⟨others, part, own⟩ := each p inside below
        exact ⟨others, .member inside part, own⟩
  · rintro ⟨members, part, own⟩
    generalize whole : object members = w at part
    induction part with
    | whole => exact whole ▸ ownReference own
    | element inside _ ih => exact inElementReferences inside (ih whole)
    | member inside _ ih => exact inMemberReferences inside (ih whole)

theorem plainIff {v : Json} : v.Plain ↔ v.references = [] := by
  rw [List.eq_nil_iff_forall_not_mem]
  constructor
  · intro plain r there
    obtain ⟨members, part, own⟩ := inReferences.mp there
    exact plain members r part (isReference.mp own)
  · intro none members s part own
    exact none s (inReferences.mpr ⟨members, part, isReference.mpr own⟩)

theorem bindOk {ε α β : Type} {x : Except ε α} {f : α → Except ε β} {b : β}
    (ended : (x >>= f) = .ok b) : ∃ a, x = .ok a ∧ f a = .ok b := by
  cases x with
  | error e => cases ended
  | ok a => exact ⟨a, rfl, ended⟩

theorem mapOk {ε α β : Type} {x : Except ε α} {f : α → β} {b : β} (ended : f <$> x = .ok b) :
    ∃ a, x = .ok a ∧ f a = b := by
  cases x with
  | error e => cases ended
  | ok a => exact ⟨a, rfl, Except.ok.inj ended⟩

section
variable {f : String → Except ReferenceError Json}

theorem elementsReplaced {elements others : List Json}
    (replaced : replaceInElements f elements = .ok others) :
    others.map Except.ok = elements.map (replaceReferences f) := by
  induction elements generalizing others with
  | nil =>
    cases replaced
    rfl
  | cons v rest ih =>
    obtain ⟨w, first, replaced⟩ := bindOk replaced
    obtain ⟨ws, later, replaced⟩ := bindOk replaced
    cases replaced
    rw [List.map_cons, List.map_cons, ih later, first]

theorem membersReplaced {members others : List (String × Json)}
    (replaced : replaceInMembers f members = .ok others) :
    (others.map fun q => (q.1, Except.ok q.2)) =
      members.map fun p => (p.1, replaceReferences f p.2) := by
  induction members generalizing others with
  | nil =>
    cases replaced
    rfl
  | cons p rest ih =>
    obtain ⟨key, v⟩ := p
    obtain ⟨w, first, replaced⟩ := bindOk replaced
    obtain ⟨ws, later, replaced⟩ := bindOk replaced
    cases replaced
    rw [List.map_cons, List.map_cons, ih later, first]

theorem elementsSelf {elements : List Json}
    (each : ∀ v ∈ elements, v.replaceReferences f = .ok v) :
    replaceInElements f elements = .ok elements := by
  induction elements with
  | nil => rfl
  | cons v rest ih =>
    rw [replaceInElements, each v List.mem_cons_self,
      ih fun w inside => each w (List.mem_cons_of_mem v inside)]
    rfl

theorem membersSelf {members : List (String × Json)}
    (each : ∀ p ∈ members, p.2.replaceReferences f = .ok p.2) :
    replaceInMembers f members = .ok members := by
  induction members with
  | nil => rfl
  | cons p rest ih =>
    obtain ⟨key, v⟩ := p
    rw [replaceInMembers, each (key, v) List.mem_cons_self,
      ih fun q inside => each q (List.mem_cons_of_mem _ inside)]
    rfl

theorem replaceSelf {v : Json} (none : ∀ r, r ∉ v.references) : v.replaceReferences f = .ok v := by
  induction v using valueInduction with
  | null | bool _ | number _ | string _ => rfl
  | array elements each =>
    rw [replaceReferences, elementsSelf fun v inside =>
      each v inside fun r there => none r (inElementReferences inside there)]
    rfl
  | object members each =>
    have plain : reference? members = .none := by
      cases own : reference? members with
      | none => rfl
      | some r => exact absurd (ownReference own) (none r)
    rw [replaceReferences, plain]
    simp only
    rw [membersSelf fun p inside =>
      each p inside fun r there => none r (inMemberReferences inside there)]
    rfl

end

theorem expandPlain {d : Json} (plain : d.Plain) : d.expandReferences = .ok d := by
  rw [← expandFromStart, expandFromEq (startSettled d)]
  exact replaceSelf fun r there => by simp [plainIff.mp plain] at there

/-- A value comes to a text when it is the text, or a reference to what comes to it. -/
inductive ComesTo (root : Json) : Json → String → Prop
  | text {s : String} : ComesTo root (.string s) s
  | follow {members : List (String × Json)} {r s : String} {place : Json}
      (own : reference? members = some r) (found : target root r = .ok place)
      (later : ComesTo root place s) : ComesTo root (.object members) s

/-- An object that is no reference, but has under `$ref` one that comes to a text. -/
def Hides (root : Json) (v : Json) : Prop :=
  ∃ members w s, v = .object members ∧ reference? members = none ∧
    Keyed.get? members "$ref" = some w ∧ ComesTo root w s

/-- The expansion of a value comes to an object that hides a reference. -/
def HidesBelow (root : Json) (c : Visit) : Prop :=
  ∃ later, Relation.ReflTransGen (Calls root) c later ∧ Hides root later.value

section
variable {root : Json} {c : Visit}

theorem hidesBelowIff : HidesBelow root c ↔
    Hides root c.value ∨ ∃ next, Calls root c next ∧ HidesBelow root next := by
  constructor
  · rintro ⟨later, reached, hides⟩
    rcases Relation.ReflTransGen.cases_head reached with rfl | ⟨next, call, rest⟩
    · exact .inl hides
    · exact .inr ⟨next, call, later, rest, hides⟩
  · rintro (hides | ⟨next, call, later, rest, hides⟩)
    · exact ⟨c, .refl, hides⟩
    · exact ⟨later, .head call rest, hides⟩

theorem followOk (settled : Settled root c) {r : String} {out : Json}
    (followed : followFrom root c.active r = .ok out) :
    ∃ place, r ∉ c.active ∧ target root r = .ok place ∧
      expandFrom root ⟨r :: c.active, place⟩ = .ok out := by
  rcases followCases settled r with ⟨_, cyclic⟩ | ⟨fresh, ⟨e, _, failed⟩ | ⟨place, found, same⟩⟩
  · rw [cyclic] at followed
    cases followed
  · rw [failed] at followed
    cases followed
  · exact ⟨place, fresh, found, same ▸ followed⟩

theorem textIff (settled : Settled root c) {out : Json} (expanded : expandFrom root c = .ok out)
    (s : String) : out = .string s ↔ ComesTo root c.value s := by
  refine visitInduction (motive := fun c => ∀ out, expandFrom root c = .ok out →
    (out = .string s ↔ ComesTo root c.value s)) (fun c settled calls out expanded => ?_)
    settled out expanded
  obtain ⟨active, v⟩ := c
  rw [expandFromEq settled] at expanded
  cases v with
  | null | bool _ | number _ =>
    cases expanded
    constructor
    · intro same
      cases same
    · intro comes
      cases comes
  | string t =>
    cases expanded
    constructor
    · intro same
      cases same
      exact .text
    · intro comes
      cases comes
      rfl
  | array elements =>
    obtain ⟨others, _, rfl⟩ := mapOk expanded
    constructor
    · intro same
      cases same
    · intro comes
      cases comes
  | object members =>
    cases own : reference? members with
    | none =>
      simp only [replaceReferences, own] at expanded
      obtain ⟨others, _, rfl⟩ := mapOk expanded
      constructor
      · intro same
        cases same
      · intro comes
        cases comes with
        | follow other => simp [own] at other
    | some r =>
      simp only [replaceReferences, own] at expanded
      obtain ⟨place, fresh, found, reached⟩ := followOk settled expanded
      rw [calls _ (.follow own fresh found) out reached]
      refine ⟨.follow own found, fun comes => ?_⟩
      cases comes with
      | follow other again later =>
        cases own.symm.trans other
        cases found.symm.trans again
        exact later

theorem leftInElements {active : List String} {elements others : List Json}
    (replaced : replaceInElements (followFrom root active) elements = .ok others)
    (each : ∀ v ∈ elements, ∀ w, v.replaceReferences (followFrom root active) = .ok w →
      ((∃ r, r ∈ w.references) ↔ HidesBelow root ⟨active, v⟩)) :
    (∃ r, r ∈ (array others).references) ↔ HidesBelow root ⟨active, .array elements⟩ := by
  obtain ⟨origin, image⟩ := sameImages (elementsReplaced replaced)
  rw [hidesBelowIff, references, elementReferencesEq]
  constructor
  · rintro ⟨r, there⟩
    obtain ⟨w, inside, below⟩ := List.mem_flatMap.mp there
    obtain ⟨v, among, same⟩ := origin w inside
    exact .inr ⟨_, .element among, (each v among w same).mp ⟨r, below⟩⟩
  · rintro (⟨_, _, _, ⟨⟩, _⟩ | ⟨next, call, hides⟩)
    cases call with
    | @element _ _ v among =>
      obtain ⟨w, inside, same⟩ := image v among
      obtain ⟨r, below⟩ := (each v among w same.symm).mpr hides
      exact ⟨r, List.mem_flatMap.mpr ⟨w, inside, below⟩⟩

theorem leftInMembers {active : List String} {members others : List (String × Json)}
    (plain : reference? members = none)
    (replaced : replaceInMembers (followFrom root active) members = .ok others)
    (texts : ∀ p ∈ members, ∀ w, p.2.replaceReferences (followFrom root active) = .ok w →
      ∀ s, w = .string s ↔ ComesTo root p.2 s)
    (each : ∀ p ∈ members, ∀ w, p.2.replaceReferences (followFrom root active) = .ok w →
      ((∃ r, r ∈ w.references) ↔ HidesBelow root ⟨active, p.2⟩)) :
    (∃ r, r ∈ (object others).references) ↔ HidesBelow root ⟨active, .object members⟩ := by
  have same := membersReplaced replaced
  have member : ∀ key, (Keyed.get? others key).map Except.ok =
      (Keyed.get? members key).map (replaceReferences (followFrom root active)) := by
    intro key
    rw [← Keyed.getMap, ← Keyed.getMap, same]
  obtain ⟨origin, image⟩ := sameImages same
  rw [hidesBelowIff, references, memberReferencesEq]
  constructor
  · rintro ⟨r, there⟩
    rcases List.mem_append.mp there with own | below
    -- No text stood under `$ref` before, so one that does now is what the member came to.
    · have text := isReference.mp (Option.mem_toList.mp own)
      have written := member "$ref"
      rw [text] at written
      obtain ⟨w, found, expanded⟩ := Option.map_eq_some_iff.mp written.symm
      have comes := (texts ("$ref", w) (Keyed.memOfGet found) _ expanded r).mp rfl
      exact .inl ⟨members, w, r, rfl, plain, found, comes⟩
    · obtain ⟨q, inside, deeper⟩ := List.mem_flatMap.mp below
      obtain ⟨p, among, same⟩ := origin q inside
      have expanded := (Prod.mk.inj same).2
      exact .inr ⟨_, .member plain among, (each p among q.2 expanded).mp ⟨r, deeper⟩⟩
  · rintro (⟨_, w, s, ⟨⟩, _, found, comes⟩ | ⟨next, call, hides⟩)
    · have written := member "$ref"
      rw [found] at written
      obtain ⟨text, own, expanded⟩ := Option.map_eq_some_iff.mp written
      have string := (texts ("$ref", w) (Keyed.memOfGet found) text expanded.symm s).mpr comes
      subst string
      exact ⟨s, List.mem_append_left _ (Option.mem_toList.mpr (isReference.mpr own))⟩
    · cases call with
      | @member _ _ p _ among =>
        obtain ⟨q, inside, same⟩ := image p among
        have expanded := (Prod.mk.inj same).2
        obtain ⟨r, below⟩ := (each p among q.2 expanded.symm).mpr hides
        exact ⟨r, List.mem_append_right _ (List.mem_flatMap.mpr ⟨q, inside, below⟩)⟩
      | follow own =>
        rw [plain] at own
        cases own

/-- References are left in an expanded value exactly where its expansion comes to one that hides
one. -/
theorem leftIff (settled : Settled root c) {out : Json} (expanded : expandFrom root c = .ok out) :
    (∃ r, r ∈ out.references) ↔ HidesBelow root c := by
  refine visitInduction (motive := fun c => ∀ out, expandFrom root c = .ok out →
    ((∃ r, r ∈ out.references) ↔ HidesBelow root c)) (fun c settled calls out expanded => ?_)
    settled out expanded
  obtain ⟨active, v⟩ := c
  have each : ∀ w, Calls root ⟨active, v⟩ ⟨active, w⟩ → ∀ out,
      w.replaceReferences (followFrom root active) = .ok out →
      ((∃ r, r ∈ out.references) ↔ HidesBelow root ⟨active, w⟩) := by
    intro w call out expanded
    refine calls _ call out ?_
    rw [expandFromEq (callSettled settled call), expanded]
  rw [expandFromEq settled] at expanded
  cases v with
  | null | bool _ | number _ | string _ =>
    cases expanded
    constructor
    · rintro ⟨r, there⟩
      simp [references] at there
    · intro hides
      obtain own | ⟨next, call, later⟩ := hidesBelowIff.mp hides
      · obtain ⟨_, _, _, value, _⟩ := own
        cases value
      · cases call
  | array elements =>
    obtain ⟨others, replaced, rfl⟩ := mapOk expanded
    exact leftInElements replaced fun v inside => each v (.element inside)
  | object members =>
    cases own : reference? members with
    | none =>
      -- The texts its members come to are settled before, by `textIff`.
      simp only [replaceReferences, own] at expanded
      obtain ⟨others, replaced, rfl⟩ := mapOk expanded
      refine leftInMembers own replaced (fun p inside w expanded s => ?_) fun p inside =>
        each p.2 (.member own inside)
      have further := callSettled settled (.member own inside)
      exact textIff further ((expandFromEq further).trans expanded) s
    | some r =>
      simp only [replaceReferences, own] at expanded
      obtain ⟨place, fresh, found, reached⟩ := followOk settled expanded
      rw [calls _ (.follow own fresh found) out reached]
      constructor
      · exact fun hides => hidesBelowIff.mpr (.inr ⟨_, .follow own fresh found, hides⟩)
      · intro hides
        rcases hidesBelowIff.mp hides with ⟨_, _, _, ⟨⟩, plain, _⟩ | ⟨next, call, later⟩
        · rw [own] at plain
          cases plain
        · cases call with
          | member plain _ =>
            rw [own] at plain
            cases plain
          | follow other _ again =>
            cases own.symm.trans other
            cases found.symm.trans again
            exact later

end

/-- A document without references is its own expansion. An expanded document has none, and is its
own expansion, exactly when no object met on the way has under `$ref` a reference to a text. -/
theorem expansionPlain (d : Json) :
    (d.Plain → d.expandReferences = .ok d) ∧
    ∀ out, d.expandReferences = .ok out →
      (out.Plain ↔ ∀ c members v s, d.Visited c → c.value = .object members →
        reference? members = none → Keyed.get? members "$ref" = some v → ¬ d.ComesTo v s) ∧
      (out.Plain → out.expandReferences = .ok out) := by
  refine ⟨expandPlain, fun out expanded => ⟨?_, expandPlain⟩⟩
  have left := leftIff (startSettled d) ((expandFromStart d).trans expanded)
  constructor
  · intro plain c members v s visited value unmarked found comes
    obtain ⟨r, there⟩ := left.mpr ⟨c, visited, members, v, s, value, unmarked, found, comes⟩
    rw [plainIff.mp plain] at there
    cases there
  · intro shown
    rw [plainIff, List.eq_nil_iff_forall_not_mem]
    intro r there
    obtain ⟨c, visited, members, v, s, value, unmarked, found, comes⟩ := left.mp ⟨r, there⟩
    exact shown c members v s visited value unmarked found comes

/-- A reference that stands under `$ref` and leads to another. -/
def nested : Json :=
  .object [("$ref", .object [("$ref", .string "#/x")]), ("x", .string "#/y"),
    ("y", .bool true)]

/-- A followed reference may leave a text under `$ref`: the outcome is expanded once more. -/
theorem expansionLeavesReference : ∃ out, nested.expandReferences = .ok out ∧ ¬ out.Plain ∧
    out.expandReferences = .ok (.bool true) ∧ out ≠ .bool true := by
  refine ⟨.object [("$ref", .string "#/y"), ("x", .string "#/y"), ("y", .bool true)],
    by rfl, fun plain => ?_, by rfl, nofun⟩
  exact plain _ "#/y" .whole rfl

end Json

end RuleSchema
