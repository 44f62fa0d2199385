import RuleSchema.Json.Reader
/-! Values with their members in key order, each key once. Reading a text gives such a value,
and this is all that is asked of documents. -/
namespace RuleSchema

namespace Keyed
variable {α : Type}

theorem insertLast {m : Keyed α} {key : String} {value : α}
    (ordered : Ordered (m ++ [(key, value)])) : insert key value m = m ++ [(key, value)] := by
  induction m with
  | nil => rfl
  | cons p rest ih =>
    obtain ⟨k, v⟩ := p
    obtain ⟨above, tail⟩ := List.pairwise_cons.mp ordered
    have less : k < key := above key (by simp)
    have differs : k ≠ key := fun same => String.lt_irrefl k (same ▸ less)
    have notLess : ¬key < k := fun back => String.lt_irrefl k (String.lt_trans less back)
    rw [insert, if_neg differs, if_neg notLess, ih tail]
    rfl

theorem ofPairsSelf {m : Keyed α} (ordered : Ordered m) : ofPairs m = m := by
  suffices ∀ done : Keyed α, Ordered (done ++ m) →
      m.foldl (fun m p => insert p.1 p.2 m) done = done ++ m from this [] ordered
  clear ordered
  induction m with
  | nil => exact fun done _ => (List.append_nil done).symm
  | cons p rest ih =>
    intro done ordered
    have whole : done ++ p :: rest = (done ++ [p]) ++ rest := by simp
    rw [whole] at ordered ⊢
    have first : Ordered (done ++ [p]) := by
      rw [Ordered, keys, List.map_append] at ordered
      exact (List.pairwise_append.mp ordered).1
    rw [List.foldl_cons, insertLast first]
    exact ih (done ++ [p]) ordered

end Keyed

namespace Json

theorem orderedMembers {members : List (String × Json)} :
    OrderedMembers members ↔ ∀ p ∈ members, p.2.Ordered := by
  induction members with
  | nil => simp [OrderedMembers]
  | cons p rest ih =>
    obtain ⟨name, v⟩ := p
    simp [OrderedMembers, ih]

theorem orderedElements {elements : List Json} :
    OrderedElements elements ↔ ∀ v ∈ elements, v.Ordered := by
  induction elements with
  | nil => simp [OrderedElements]
  | cons v rest ih => simp [OrderedElements, ih]

theorem orderedGet {v w : Json} (ordered : v.Ordered) {key : String}
    (found : v.get? key = some w) : w.Ordered := by
  cases v with
  | object members => exact orderedMembers.mp ordered.2 (key, w) (Keyed.memOfGet found)
  | null | bool _ | number _ | string _ | array _ => cases found

@[elab_as_elim]
theorem valueInduction {motive : Json → Prop} (null : motive .null)
    (bool : ∀ b, motive (.bool b)) (number : ∀ n, motive (.number n))
    (string : ∀ s, motive (.string s))
    (array : ∀ elements, (∀ v ∈ elements, motive v) → motive (.array elements))
    (object : ∀ members, (∀ p ∈ members, motive p.2) → motive (.object members))
    (v : Json) : motive v :=
  match v with
  | .null => null
  | .bool b => bool b
  | .number n => number n
  | .string s => string s
  | .array elements => array elements fun v _ =>
    valueInduction null bool number string array object v
  | .object members => object members fun p _ =>
    valueInduction null bool number string array object p.2
termination_by sizeOf v
decreasing_by
  · rename_i inside
    have smaller := List.sizeOf_lt_of_mem inside
    simp only [Json.array.sizeOf_spec]
    omega
  · rename_i inside
    have smaller := List.sizeOf_lt_of_mem inside
    obtain ⟨name, v⟩ := p
    simp only [Prod.mk.sizeOf_spec] at smaller
    simp only [Json.object.sizeOf_spec]
    omega

theorem inSortedMembers {members : List (String × Json)} {p : String × Json}
    (inside : p ∈ sortedMembers members) : ∃ q ∈ members, p.2 = q.2.sorted := by
  induction members with
  | nil => simp [sortedMembers] at inside
  | cons q rest ih =>
    rcases List.mem_cons.mp inside with rfl | later
    · exact ⟨q, List.mem_cons_self, rfl⟩
    · obtain ⟨other, there, same⟩ := ih later
      exact ⟨other, List.mem_cons_of_mem q there, same⟩

theorem inSortedElements {elements : List Json} {v : Json}
    (inside : v ∈ sortedElements elements) : ∃ w ∈ elements, v = w.sorted := by
  induction elements with
  | nil => simp [sortedElements] at inside
  | cons w rest ih =>
    rcases List.mem_cons.mp inside with rfl | later
    · exact ⟨w, List.mem_cons_self, rfl⟩
    · obtain ⟨other, there, same⟩ := ih later
      exact ⟨other, List.mem_cons_of_mem w there, same⟩

theorem sortedOrdered (v : Json) : v.sorted.Ordered := by
  induction v using valueInduction with
  | null | bool _ | number _ | string _ => trivial
  | array elements each =>
    refine orderedElements.mpr fun v inside => ?_
    obtain ⟨w, there, rfl⟩ := inSortedElements inside
    exact each w there
  | object members each =>
    refine ⟨Keyed.ofPairsOrdered _, orderedMembers.mpr fun p inside => ?_⟩
    obtain ⟨q, there, same⟩ := inSortedMembers (Keyed.memOfPairs inside)
    exact same ▸ each q there

theorem sortedElementsSelf {elements : List Json} (each : ∀ v ∈ elements, v.sorted = v) :
    sortedElements elements = elements := by
  induction elements with
  | nil => rfl
  | cons v rest ih =>
    rw [sortedElements, each v List.mem_cons_self,
      ih fun w inside => each w (List.mem_cons_of_mem v inside)]

theorem sortedMembersSelf {members : List (String × Json)}
    (each : ∀ p ∈ members, p.2.sorted = p.2) : sortedMembers members = members := by
  induction members with
  | nil => rfl
  | cons p rest ih =>
    obtain ⟨name, v⟩ := p
    rw [sortedMembers, each (name, v) List.mem_cons_self,
      ih fun q inside => each q (List.mem_cons_of_mem _ inside)]

theorem sortedSelf {v : Json} (ordered : v.Ordered) : v.sorted = v := by
  induction v using valueInduction with
  | null | bool _ | number _ | string _ => rfl
  | array elements each =>
    have below := orderedElements.mp ordered
    rw [sorted, sortedElementsSelf fun v inside => each v inside (below v inside)]
  | object members each =>
    obtain ⟨keys, below⟩ := ordered
    replace below := orderedMembers.mp below
    rw [sorted, sortedMembersSelf fun p inside => each p inside (below p inside),
      Keyed.ofPairsSelf keys]

theorem readEach {α β : Type} {read : β → Option α} {write : α → β} {xs : List α}
    (each : ∀ x ∈ xs, read (write x) = some x) : (xs.map write).mapM read = some xs := by
  induction xs with
  | nil => rfl
  | cons x rest ih =>
    rw [List.map_cons, List.mapM_cons, each x List.mem_cons_self,
      ih fun y inside => each y (List.mem_cons_of_mem x inside)]
    rfl

theorem inReadAll {α β : Type} {read : β → Option α} {xs : List β} {ys : List α}
    (all : xs.mapM read = some ys) {y : α} (inside : y ∈ ys) : ∃ x ∈ xs, read x = some y := by
  induction xs generalizing ys with
  | nil =>
    cases all
    cases inside
  | cons x rest ih =>
    rw [List.mapM_cons] at all
    obtain ⟨first, here, all⟩ := Option.bind_eq_some_iff.mp all
    obtain ⟨others, later, all⟩ := Option.bind_eq_some_iff.mp all
    cases all
    rcases List.mem_cons.mp inside with rfl | there
    · exact ⟨x, List.mem_cons_self, here⟩
    · obtain ⟨origin, among, same⟩ := ih later there
      exact ⟨origin, List.mem_cons_of_mem x among, same⟩

theorem parsedOrdered {text : String} {v : Json} (parsed : parse? text = some v) : v.Ordered := by
  obtain ⟨tree, _, rfl⟩ := Option.map_eq_some_iff.mp parsed
  exact sortedOrdered tree

end Json

end RuleSchema
