/-! Values under text keys, in the order of the keys. Keys are ordered by code points. What
an operation does is said through `get?`; `Ordered` is kept by every operation. -/
namespace RuleSchema

abbrev Keyed (α : Type) := List (String × α)

namespace Keyed
variable {α β : Type}

def get? : Keyed α → String → Option α
  | [], _ => none
  | (k, v) :: rest, key => if k = key then some v else get? rest key

/-- Puts a value under a key, in the place of the one there or else where its key belongs. -/
def insert (key : String) (value : α) : Keyed α → Keyed α
  | [] => [(key, value)]
  | (k, v) :: rest =>
    if k = key then (key, value) :: rest
    else if key < k then (key, value) :: (k, v) :: rest
    else (k, v) :: insert key value rest

/-- Of pairs with one key the last counts. -/
def ofPairs (pairs : List (String × α)) : Keyed α :=
  pairs.foldl (fun m p => insert p.1 p.2 m) []

def keys (m : Keyed α) : List String := m.map Prod.fst

def Ordered (m : Keyed α) : Prop := (keys m).Pairwise (· < ·)

instance (m : Keyed α) : Decidable (Ordered m) := by unfold Ordered; infer_instance

theorem getInsert (m : Keyed α) (key other : String) (value : α) :
    (insert key value m).get? other = if key = other then some value else m.get? other := by
  induction m with
  | nil => simp [insert, get?]
  | cons p rest ih =>
    obtain ⟨k, v⟩ := p
    unfold insert
    by_cases same : k = key
    · subst same
      by_cases h : k = other <;> simp [get?, h]
    · by_cases less : key < k
      · simp only [same, less, if_true, if_false, get?]
      · simp only [same, less, if_false, get?, ih]
        by_cases h : k = other
        · have : key ≠ other := fun e => same (h.trans e.symm)
          simp [h, this]
        · simp [h]

theorem getMap (f : α → β) (m : Keyed α) (key : String) :
    get? (m.map fun p => (p.1, f p.2)) key = (get? m key).map f := by
  induction m with
  | nil => rfl
  | cons p rest ih =>
    obtain ⟨k, v⟩ := p
    by_cases same : k = key <;> simp [get?, same, ih]

theorem memInsert {m : Keyed α} {key : String} {value : α} {p : String × α}
    (inside : p ∈ insert key value m) : p = (key, value) ∨ p ∈ m := by
  induction m with
  | nil => simpa [insert] using inside
  | cons q rest ih =>
    obtain ⟨k, v⟩ := q
    unfold insert at inside
    split at inside
    · exact (List.mem_cons.mp inside).imp_right (List.mem_cons_of_mem _)
    · split at inside
      · exact List.mem_cons.mp inside
      · rcases List.mem_cons.mp inside with same | later
        · exact .inr (same ▸ List.mem_cons_self)
        · exact (ih later).imp_right (List.mem_cons_of_mem _)

theorem keysInsert {m : Keyed α} {key : String} {value : α} {k : String}
    (h : k ∈ (insert key value m).keys) : k = key ∨ k ∈ m.keys := by
  obtain ⟨p, inside, rfl⟩ := List.mem_map.mp h
  rcases memInsert inside with rfl | old
  · exact .inl rfl
  · exact .inr (List.mem_map.mpr ⟨p, old, rfl⟩)

theorem insertOrdered {m : Keyed α} (h : Ordered m) (key : String) (value : α) :
    Ordered (insert key value m) := by
  induction m with
  | nil => simp [insert, Ordered, keys]
  | cons p rest ih =>
    obtain ⟨k, v⟩ := p
    obtain ⟨above, tail⟩ := List.pairwise_cons.mp h
    unfold insert
    split
    · rename_i same
      exact List.pairwise_cons.mpr ⟨fun x inside => same ▸ above x inside, tail⟩
    · split
      · rename_i less
        refine List.pairwise_cons.mpr ⟨fun x inside => ?_, h⟩
        rcases List.mem_cons.mp inside with same | old
        · exact same ▸ less
        · exact String.lt_trans less (above x old)
      · rename_i differs notLess
        refine List.pairwise_cons.mpr ⟨fun x inside => ?_, ih tail⟩
        rcases keysInsert inside with same | old
        · subst same
          exact Std.lt_of_le_of_ne (String.not_lt.mp notLess) differs
        · exact above x old

theorem ofPairsOrdered (pairs : List (String × α)) : Ordered (ofPairs pairs) := by
  suffices ∀ m : Keyed α, Ordered m → Ordered (pairs.foldl (fun m p => insert p.1 p.2 m) m) from
    this [] List.Pairwise.nil
  induction pairs with
  | nil => exact fun m h => h
  | cons p rest ih => exact fun m h => ih _ (insertOrdered h p.1 p.2)

theorem memOfPairs {pairs : List (String × α)} {p : String × α} (inside : p ∈ ofPairs pairs) :
    p ∈ pairs := by
  suffices ∀ m : Keyed α, p ∈ pairs.foldl (fun m p => insert p.1 p.2 m) m → p ∈ m ∨ p ∈ pairs by
    exact (this [] inside).resolve_left List.not_mem_nil
  clear inside
  induction pairs with
  | nil => exact fun m there => .inl there
  | cons q rest ih =>
    intro m there
    rcases ih _ there with placed | later
    · rcases memInsert placed with rfl | old
      · exact .inr List.mem_cons_self
      · exact .inl old
    · exact .inr (List.mem_cons_of_mem q later)

theorem memOfGet {m : Keyed α} {key : String} {value : α} (found : m.get? key = some value) :
    (key, value) ∈ m := by
  induction m with
  | nil => simp [get?] at found
  | cons p rest ih =>
    obtain ⟨k, v⟩ := p
    unfold get? at found
    split at found
    · rename_i same
      cases found
      simp [same]
    · exact List.mem_cons_of_mem _ (ih found)

theorem getNone {m : Keyed α} {key : String} : m.get? key = none ↔ key ∉ m.keys := by
  induction m with
  | nil => simp [get?, keys]
  | cons p rest ih =>
    obtain ⟨k, v⟩ := p
    by_cases same : k = key
    · simp [get?, keys, same]
    · have other : key ≠ k := fun e => same e.symm
      simpa [get?, keys, same, other] using ih

theorem headKeyFresh {k : String} {v : α} {rest : Keyed α} (ordered : Ordered ((k, v) :: rest)) :
    k ∉ rest.keys := fun again =>
  String.lt_irrefl k ((List.pairwise_cons.mp ordered).1 k again)

theorem getOfMem {m : Keyed α} (ordered : Ordered m) {key : String} {value : α}
    (inside : (key, value) ∈ m) : m.get? key = some value := by
  induction m with
  | nil => simp at inside
  | cons p rest ih =>
    obtain ⟨k, v⟩ := p
    have tail : Ordered rest := (List.pairwise_cons.mp ordered).2
    rcases List.mem_cons.mp inside with same | old
    · cases same
      simp [get?]
    · have differs : k ≠ key := by
        rintro rfl
        exact headKeyFresh ordered (List.mem_map.mpr ⟨_, old, rfl⟩)
      simpa [get?, differs] using ih tail old

/-- Ordered lists that answer alike are the same. -/
theorem orderedExt {m n : Keyed α} (left : Ordered m) (right : Ordered n)
    (same : ∀ key, m.get? key = n.get? key) : m = n := by
  induction m generalizing n with
  | nil =>
    cases n with
    | nil => rfl
    | cons q others => simpa [get?] using same q.1
  | cons p rest ih =>
    obtain ⟨k, v⟩ := p
    cases n with
    | nil => simpa [get?] using same k
    | cons q others =>
      obtain ⟨l, w⟩ := q
      obtain ⟨aboveK, restOrdered⟩ := List.pairwise_cons.mp left
      obtain ⟨aboveL, othersOrdered⟩ := List.pairwise_cons.mp right
      have keySame : k = l := by
        -- The lesser of two different first keys has no entry in the other list.
        rcases Std.lt_trichotomy k l with less | equal | less
        · have absent : k ∉ keys others := fun inside =>
            String.lt_irrefl k (String.lt_trans less (aboveL k inside))
          have differs : l ≠ k := fun e => String.lt_irrefl k (e ▸ less)
          simpa [get?, differs, getNone.mpr absent] using same k
        · exact equal
        · have absent : l ∉ keys rest := fun inside =>
            String.lt_irrefl l (String.lt_trans less (aboveK l inside))
          have differs : k ≠ l := fun e => String.lt_irrefl l (e ▸ less)
          simpa [get?, differs, getNone.mpr absent] using same l
      subst keySame
      have valueSame : v = w := by simpa [get?] using same k
      subst valueSame
      rw [ih restOrdered othersOrdered fun key => ?_]
      by_cases first : k = key
      · subst first
        rw [getNone.mpr (headKeyFresh left), getNone.mpr (headKeyFresh right)]
      · simpa [get?, first] using same key

/-- A value put under a key that is there stands where the old one stood. -/
theorem insertInPlace {m : Keyed α} (ordered : Ordered m) {key : String} {old : α}
    (found : m.get? key = some old) :
    ∃ before after, m = before ++ (key, old) :: after ∧
      ∀ value, insert key value m = before ++ (key, value) :: after := by
  induction m with
  | nil => simp [get?] at found
  | cons p rest ih =>
    obtain ⟨k, v⟩ := p
    obtain ⟨above, tail⟩ := List.pairwise_cons.mp ordered
    by_cases same : k = key
    · subst same
      have : v = old := by simpa [get?] using found
      subst this
      exact ⟨[], rest, rfl, fun value => by simp [insert]⟩
    · have inRest : get? rest key = some old := by simpa [get?, same] using found
      have less : k < key :=
        above key (List.mem_map.mpr ⟨_, memOfGet inRest, rfl⟩)
      have notLess : ¬ key < k := fun h => String.lt_irrefl k (String.lt_trans less h)
      obtain ⟨before, after, split, put⟩ := ih tail inRest
      exact ⟨(k, v) :: before, after, by rw [split]; rfl,
        fun value => by simp [insert, same, notLess, put]⟩

end Keyed

end RuleSchema
