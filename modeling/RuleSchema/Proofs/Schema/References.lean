import Mathlib.Data.List.Dedup
import Mathlib.Data.List.Perm.Subperm
import Mathlib.Logic.Relation
import RuleSchema.Proofs.Json.Ordered
import RuleSchema.Proofs.Json.Pointer
import RuleSchema.Proofs.Schema.Tree
import RuleSchema.Schema.Reference
/-! The expansion of references as a recursion: from a value to its parts, and from a reference to
the place it names. While one is followed it is not followed again, so the recursion ends, and its
bound is never what stops it. -/
namespace RuleSchema

namespace Json

theorem elementReferencesEq (elements : List Json) :
    elementReferences elements = elements.flatMap references := by
  induction elements with
  | nil => rfl
  | cons v rest ih => rw [elementReferences, ih, List.flatMap_cons]

theorem memberReferencesEq (members : List (String × Json)) :
    memberReferences members = members.flatMap fun p => p.2.references := by
  induction members with
  | nil => rfl
  | cons p rest ih => rw [memberReferences, ih, List.flatMap_cons]

theorem inElementReferences {elements : List Json} {v : Json} (inside : v ∈ elements) {r : String}
    (there : r ∈ v.references) : r ∈ (array elements).references := by
  rw [references, elementReferencesEq]
  exact List.mem_flatMap.mpr ⟨v, inside, there⟩

theorem inMemberReferences {members : List (String × Json)} {p : String × Json}
    (inside : p ∈ members) {r : String} (there : r ∈ p.2.references) :
    r ∈ (object members).references := by
  rw [references, memberReferencesEq]
  exact List.mem_append_right _ (List.mem_flatMap.mpr ⟨p, inside, there⟩)

theorem ownReference {members : List (String × Json)} {r : String}
    (own : reference? members = some r) : r ∈ (object members).references := by
  simp [references, own]

theorem childReferences {v w : Json} {token : String} (found : v.child? token = some w)
    {r : String} (there : r ∈ w.references) : r ∈ v.references := by
  cases v with
  | object members => exact inMemberReferences (Keyed.memOfGet found) there
  | array elements =>
    obtain ⟨i, _, element⟩ := Option.bind_eq_some_iff.mp found
    exact inElementReferences (List.mem_of_getElem? element) there
  | null | bool _ | number _ | string _ => cases found

theorem descendReferences {v w : Json} {tokens : List String} (found : v.descend? tokens = some w)
    {r : String} (there : r ∈ w.references) : r ∈ v.references := by
  induction tokens generalizing v with
  | nil =>
    cases found
    exact there
  | cons token rest ih =>
    rw [descend?, walkCons] at found
    obtain ⟨child, first, later⟩ := Option.bind_eq_some_iff.mp found
    exact childReferences first (ih later)

theorem targetReferences {root place : Json} {reference : String}
    (found : target root reference = .ok place) {r : String} (there : r ∈ place.references) :
    r ∈ root.references := by
  unfold target at found
  split at found
  · split at found
    · rename_i at_
      cases found
      obtain ⟨tokens, _, descends⟩ := Option.bind_eq_some_iff.mp at_
      exact descendReferences descends there
    · cases found
  · cases found

theorem targetFails {root : Json} {reference : String} {e : ReferenceError}
    (failed : target root reference = .error e) :
    e = .unresolved reference ∨ e = .external reference := by
  unfold target at failed
  split at failed
  · split at failed
    · cases failed
    · exact .inl (Except.error.inj failed).symm
  · exact .inr (Except.error.inj failed).symm

theorem targetMarked {root place : Json} {reference : String}
    (found : target root reference = .ok place) : reference.toList.head? = some '#' := by
  unfold target at found
  split at found
  · rename_i marked
    rw [marked]
    rfl
  · cases found

theorem targetOfTokens (root : Json) (tokens : List String) :
    target root ("#" ++ Pointer.ofTokens tokens) =
      match root.descend? tokens with
      | some v => .ok v
      | none => .error (.unresolved ("#" ++ Pointer.ofTokens tokens)) := by
  have marked : ("#" ++ Pointer.ofTokens tokens).toList = '#' :: (Pointer.ofTokens tokens).toList :=
    String.toList_append
  have found : root.at? (Pointer.ofTokens tokens) = root.descend? tokens := by
    rw [at?, Pointer.tokensOfTokens, Option.bind_some]
  rw [target, marked]
  cases descends : root.descend? tokens <;> simp only [String.ofList_toList, found, descends]

theorem targetUnrooted (root : Json) {reference : String} {c : Char} {cs : List Char}
    (text : reference.toList = '#' :: c :: cs) (differs : c ≠ '/') :
    target root reference = .error (.unresolved reference) := by
  have missing : root.at? (String.ofList (c :: cs)) = none := by
    rw [at?, Pointer.tokensUnrooted String.toList_ofList differs]
    rfl
  rw [target, text]
  simp only [missing]

/-- A value in the course of expanding a document, with the references being followed to it, the
last one first. -/
structure Visit where
  active : List String
  value : Json

/-- The expansion of one value asks for that of another. -/
inductive Calls (root : Json) : Visit → Visit → Prop
  | element {active : List String} {elements : List Json} {v : Json} (inside : v ∈ elements) :
      Calls root ⟨active, .array elements⟩ ⟨active, v⟩
  | member {active : List String} {members : List (String × Json)} {p : String × Json}
      (plain : reference? members = none) (inside : p ∈ members) :
      Calls root ⟨active, .object members⟩ ⟨active, p.2⟩
  | follow {active : List String} {members : List (String × Json)} {r : String} {place : Json}
      (own : reference? members = some r) (fresh : r ∉ active)
      (found : target root r = .ok place) :
      Calls root ⟨active, .object members⟩ ⟨r :: active, place⟩

/-- The values the expansion of a document comes to, if nothing stops it. -/
def Visited (root : Json) : Visit → Prop := Relation.ReflTransGen (Calls root) ⟨[], root⟩

structure Settled (root : Json) (c : Visit) : Prop where
  nodup : c.active.Nodup
  known : ∀ r ∈ c.active, r ∈ root.references
  found : ∀ r ∈ c.active, ∃ place, target root r = .ok place
  inside : ∀ r ∈ c.value.references, r ∈ root.references

variable {root : Json} {c next : Visit}

theorem startSettled (root : Json) : Settled root ⟨[], root⟩ :=
  ⟨List.nodup_nil, nofun, nofun, fun _ there => there⟩

theorem callSettled (settled : Settled root c) (call : Calls root c next) : Settled root next := by
  obtain ⟨nodup, known, found, inside⟩ := settled
  cases call with
  | element there =>
    exact ⟨nodup, known, found, fun r below => inside r (inElementReferences there below)⟩
  | member _ there =>
    exact ⟨nodup, known, found, fun r below => inside r (inMemberReferences there below)⟩
  | @follow _ _ r place own fresh reached =>
    refine ⟨List.nodup_cons.mpr ⟨fresh, nodup⟩, ?_, ?_, fun q below => targetReferences reached below⟩
    · exact List.forall_mem_cons.mpr ⟨inside r (ownReference own), known⟩
    · exact List.forall_mem_cons.mpr ⟨⟨place, reached⟩, found⟩

theorem visitedSettled (visited : root.Visited c) : Settled root c := by
  induction visited with
  | refl => exact startSettled root
  | tail _ call settled => exact callSettled settled call

theorem activeBound (settled : Settled root c) :
    c.active.length ≤ root.references.dedup.length := by
  refine (settled.nodup.subperm fun r inside => ?_).length_le
  exact List.mem_dedup.mpr (settled.known r inside)

theorem allActive (settled : Settled root c) (full : root.references.length ≤ c.active.length)
    {r : String} (there : r ∈ root.references) : r ∈ c.active := by
  by_contra fresh
  have more : (r :: c.active).Nodup := List.nodup_cons.mpr ⟨fresh, settled.nodup⟩
  have bound := (more.subperm (List.forall_mem_cons.mpr ⟨there, settled.known⟩)).length_le
  simp only [List.length_cons] at bound
  omega

theorem callsEnd (settled : Settled root c) :
    Acc (fun callee caller => Calls root caller callee) c := by
  -- A call goes to a part of the value, or there is one reference less to follow.
  obtain ⟨left, enough⟩ : ∃ left, root.references.dedup.length ≤ c.active.length + left :=
    ⟨_, Nat.le_add_left _ _⟩
  obtain ⟨active, v⟩ := c
  induction left using Nat.strongRecOn generalizing active v with
  | ind left fewer =>
    induction v using valueInduction with
    | null | bool _ | number _ | string _ => exact .intro _ nofun
    | array elements each =>
      refine .intro _ fun next call => ?_
      have further := callSettled settled call
      cases call with
      | element there => exact each _ there further enough
    | object members each =>
      refine .intro _ fun next call => ?_
      have further := callSettled settled call
      cases call with
      | member _ there => exact each _ there further enough
      | follow =>
        have bound := activeBound further
        simp only [List.length_cons] at bound enough
        exact fewer (left - 1) (by omega) _ _ further (by simp only [List.length_cons]; omega)

/-- What holds of a value when it holds of all the values its expansion asks for. -/
theorem visitInduction {motive : Visit → Prop}
    (step : ∀ c, Settled root c → (∀ next, Calls root c next → motive next) → motive c)
    (settled : Settled root c) : motive c := by
  induction callsEnd settled with
  | intro c _ ih => exact step c settled fun next call => ih next call (callSettled settled call)

section
variable {m : Type → Type} [Monad m] {f g : String → m Json}

theorem replaceElementsAlike {elements : List Json}
    (each : ∀ v ∈ elements, v.replaceReferences f = v.replaceReferences g) :
    replaceInElements f elements = replaceInElements g elements := by
  induction elements with
  | nil => rfl
  | cons v rest ih =>
    rw [replaceInElements, replaceInElements, each v List.mem_cons_self,
      ih fun w inside => each w (List.mem_cons_of_mem v inside)]

theorem replaceMembersAlike {members : List (String × Json)}
    (each : ∀ p ∈ members, p.2.replaceReferences f = p.2.replaceReferences g) :
    replaceInMembers f members = replaceInMembers g members := by
  induction members with
  | nil => rfl
  | cons p rest ih =>
    obtain ⟨key, v⟩ := p
    rw [replaceInMembers, replaceInMembers, each (key, v) List.mem_cons_self,
      ih fun q inside => each q (List.mem_cons_of_mem _ inside)]

theorem replaceAlike {v : Json} (alike : ∀ r ∈ v.references, f r = g r) :
    v.replaceReferences f = v.replaceReferences g := by
  induction v using valueInduction with
  | null | bool _ | number _ | string _ => rfl
  | array elements each =>
    rw [replaceReferences, replaceReferences, replaceElementsAlike fun v inside =>
      each v inside fun r there => alike r (inElementReferences inside there)]
  | object members each =>
    rw [replaceReferences, replaceReferences]
    cases own : reference? members with
    | some r => exact alike r (ownReference own)
    | none =>
      simp only
      rw [replaceMembersAlike fun p inside =>
        each p inside fun r there => alike r (inMemberReferences inside there)]

end

/-- What the expansion of a value comes to, when as many references more may be followed as the
document has. -/
def expandFrom (root : Json) (c : Visit) : Except ReferenceError Json :=
  expandWithin root (root.references.length - c.active.length) c.active c.value

def followFrom (root : Json) (active : List String) (r : String) : Except ReferenceError Json :=
  if r.toList.head? = some '#' ∧ r ∈ active then .error (.cyclic r)
  else match target root r with
    | .ok place => expandFrom root ⟨r :: active, place⟩
    | .error e => .error e

/-- The bound on the references followed inside each other never stops the expansion. -/
theorem expandFromEq (settled : Settled root c) :
    expandFrom root c = c.value.replaceReferences (followFrom root c.active) := by
  unfold expandFrom
  cases left : root.references.length - c.active.length with
  | zero =>
    -- Every reference is being followed by now, so what is left to find are cycles.
    rw [expandWithin]
    refine replaceAlike fun r there => ?_
    have active : r ∈ c.active := allActive settled (by omega) (settled.inside r there)
    obtain ⟨place, found⟩ := settled.found r active
    simp [followFrom, targetMarked found, active]
  | succ n =>
    have next : n = root.references.length - (c.active.length + 1) := by omega
    subst next
    rw [expandWithin]
    rfl

theorem expandFromStart (root : Json) : expandFrom root ⟨[], root⟩ = root.expandReferences := rfl

/-- A reference that is being followed already is a cycle, another leads to its place. -/
theorem followCases (settled : Settled root c) (r : String) :
    (r ∈ c.active ∧ followFrom root c.active r = .error (.cyclic r)) ∨
    (r ∉ c.active ∧ ((∃ e, target root r = .error e ∧ followFrom root c.active r = .error e) ∨
      ∃ place, target root r = .ok place ∧
        followFrom root c.active r = expandFrom root ⟨r :: c.active, place⟩)) := by
  by_cases active : r ∈ c.active
  · obtain ⟨place, found⟩ := settled.found r active
    exact .inl ⟨active, by simp [followFrom, targetMarked found, active]⟩
  · refine .inr ⟨active, ?_⟩
    cases reached : target root r with
    | error e => exact .inl ⟨e, rfl, by simp [followFrom, active, reached]⟩
    | ok place => exact .inr ⟨place, rfl, by simp [followFrom, active, reached]⟩

end Json

end RuleSchema
