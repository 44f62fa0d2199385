import RuleSchema.Proofs.Json.Ordered
import RuleSchema.Proofs.Schema.Soundness
/-! The schema a document shows. It has a node exactly where the document has a value, that
value's own schema; it requires the members that are not optional, and it has no keywords, no
faults, and keys in the order of the document. -/
namespace RuleSchema

namespace Schema
variable (config : Config)

theorem inferMembersGet (members : List (String × Json)) (name : String) :
    Keyed.get? (inferMembers config members) name =
      (Keyed.get? members name).map (infer config) := by
  induction members with
  | nil => rfl
  | cons p rest ih =>
    obtain ⟨key, v⟩ := p
    by_cases same : key = name <;> simp [inferMembers, Keyed.get?, same, ih]

theorem inferMembersKeys (members : List (String × Json)) :
    Keyed.keys (inferMembers config members) = Keyed.keys members := by
  induction members with
  | nil => rfl
  | cons p rest ih => exact congrArg (p.1 :: ·) ih

theorem inInferMembers {members : List (String × Json)} {p : String × Schema}
    (inside : p ∈ inferMembers config members) : ∃ q ∈ members, p.2 = infer config q.2 := by
  induction members with
  | nil => simp [inferMembers] at inside
  | cons q rest ih =>
    rcases List.mem_cons.mp inside with rfl | later
    · exact ⟨q, List.mem_cons_self, rfl⟩
    · obtain ⟨found, there, same⟩ := ih later
      exact ⟨found, List.mem_cons_of_mem q there, same⟩

theorem inferProperty (v : Json) (name : String) :
    (infer config v).property? name = (v.get? name).map (infer config) := by
  cases v with
  | object members => exact inferMembersGet config members name
  | null | bool _ | number _ | string _ | array _ => rfl

theorem inferAt (v : Json) (path : List String) :
    (infer config v).at? path = (v.member? path).map (infer config) := by
  induction path generalizing v with
  | nil => rfl
  | cons name rest ih =>
    rw [atCons, Json.memberCons, inferProperty]
    cases found : v.get? name with
    | none => rfl
    | some w => exact ih w

theorem inferFree (v : Json) : (infer config v).constraints = .empty := by
  cases v <;> rfl

theorem inferAtFree {v : Json} {path : List String} {node : Schema}
    (found : (infer config v).at? path = some node) : node.constraints = .empty := by
  rw [inferAt] at found
  obtain ⟨w, _, same⟩ := Option.map_eq_some_iff.mp found
  rw [← same]
  exact inferFree config w

theorem inferOrdered {v : Json} (ordered : v.Ordered) : (infer config v).Ordered := by
  induction v using Json.valueInduction with
  | null | bool _ | number _ | string _ => exact bareOrdered _
  | array elements each =>
    refine orderedNode.mpr ⟨List.Pairwise.nil, nofun, ?_, trivial, trivial⟩
    cases elements with
    | nil => exact bareOrdered .object
    | cons first rest => exact each first List.mem_cons_self ordered.1
  | object members each =>
    obtain ⟨keys, values⟩ := ordered
    have shown : Keyed.Ordered (inferMembers config members) := by
      rw [Keyed.Ordered, inferMembersKeys]
      exact keys
    refine orderedNode.mpr ⟨shown, fun p inside => ?_, trivial, trivial, trivial⟩
    obtain ⟨q, there, same⟩ := inInferMembers config inside
    exact same ▸ each q there (Json.orderedMembers.mp values q there)

theorem inferRequires {members : List (String × Json)} {name : String} :
    name ∈ (infer config (.object members)).required ↔
      name ∈ Keyed.keys members ∧ config.isOptional name = false := by
  suffices ∀ keys names : List String,
      name ∈ keys.foldl (fun names name =>
        if config.isOptional name then names else addName names name) names ↔
      name ∈ names ∨ name ∈ keys ∧ config.isOptional name = false from
    (this (Keyed.keys members) []).trans (by simp)
  intro keys
  induction keys with
  | nil => simp
  | cons key rest ih =>
    intro names
    rw [List.foldl_cons, ih, List.mem_cons]
    cases optional : config.isOptional key with
    | true =>
      have differs : config.isOptional name = false → name ≠ key := by
        rintro counts rfl
        rw [optional] at counts
        cases counts
      grind
    | false =>
      simp only [Bool.false_eq_true, if_false, inAddName]
      grind

theorem inferSound (v : Json) : (infer config v).fault? = none := by
  induction v using Json.valueInduction with
  | null | bool _ | number _ | string _ => exact bareSound _
  | array elements each =>
    refine faultNone.mpr ⟨rfl, ?_, nofun, List.nodup_nil⟩
    rintro t ⟨⟩
    cases elements with
    | nil => exact bareSound .object
    | cons first rest => exact each first List.mem_cons_self
  | object members each =>
    refine faultNone.mpr ⟨rfl, nofun, ?_, ?_⟩
    · intro p inside
      obtain ⟨q, there, same⟩ := inInferMembers config inside
      exact same ▸ each q there
    · have distinct : ∀ names : List String, names.Nodup →
          ((Keyed.keys members).foldl (fun names name =>
            if config.isOptional name then names else addName names name) names).Nodup := by
        induction Keyed.keys members with
        | nil => exact fun _ fine => fine
        | cons name rest ih =>
          intro names fine
          rw [List.foldl_cons]
          split
          · exact ih _ fine
          · exact ih _ (addNameNodup fine name)
      exact distinct [] List.nodup_nil

end Schema

end RuleSchema
