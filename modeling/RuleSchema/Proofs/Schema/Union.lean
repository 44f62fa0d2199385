import RuleSchema.Proofs.Schema.Frame
/-! The schema of a list of rules, merged over the base it was made for, as a union one level deep.
Each of its entries extends the entry of the base under the same name, however deep the rules
reach: merged over that entry it gives itself. -/
namespace RuleSchema.Schema

/-- The entries of another schema put over those of the base, whole, and the names it requires
behind those of the base. -/
def unite (base upper : Schema) : Schema :=
  { base with
    properties :=
      upper.properties.foldl (fun properties p => Keyed.insert p.1 p.2 properties) base.properties
    required := base.required ++ upper.required.filter fun name => decide (name ∉ base.required) }

/-- Laid over the base, the schema is itself: it keeps what the base has, or writes over it. -/
def Extends (base upper : Schema) : Prop := merge base upper = upper

theorem Extends.refl {s : Schema} (ordered : s.Ordered) : Extends s s := mergeSelf ordered

section
variable {base upper : Schema}

theorem Extends.kind (wider : Extends base upper) : upper.kind = base.kind := by
  rw [← wider, mergeFields]

theorem Extends.entry (wider : Extends base upper) (ordered : upper.Ordered) {name : String}
    {b : Schema} (declared : base.property? name = some b) :
    ∃ u, upper.property? name = some u ∧ Extends b u := by
  have merged := propertyMerge base ordered.keys name
  rw [wider, declared] at merged
  cases own : upper.property? name with
  | none =>
    rw [own] at merged
    cases merged
  | some u =>
    rw [own] at merged
    exact ⟨u, rfl, (Option.some.inj merged).symm⟩

theorem Extends.sameKinds (wider : Extends base upper) (ordered : upper.Ordered) :
    SameKinds base upper := by
  intro place b u inside left right
  induction place generalizing base upper with
  | nil => contradiction
  | cons name rest ih =>
    rw [atCons] at left right
    obtain ⟨child, declared, left⟩ := Option.bind_eq_some_iff.mp left
    obtain ⟨own, found, below⟩ := wider.entry ordered declared
    rw [found] at right
    cases rest with
    | nil =>
      cases left
      cases right
      exact below.kind
    | cons next rest => exact ih below (ordered.child found) (by simp) left right

/-- A schema that extends its base has every node the base could seed. -/
theorem imposeUnseeded (wider : Extends base upper) (ordered : upper.Ordered) (r : Rule)
    (path : List String) : impose r upper (some base) path = impose r upper none path := by
  induction path generalizing base upper with
  | nil => rfl
  | cons name rest ih =>
    rw [impose, impose, Option.bind_some, Option.bind_none]
    cases declared : base.property? name with
    | none =>
      have same : ∀ new, upper.childOr (some base) name new = upper.childOr none name new :=
        fun new => by simp [childOr, declared]
      rw [same]
    | some b =>
      obtain ⟨u, own, below⟩ := wider.entry ordered declared
      rw [childOrOwn own, childOrOwn own, ih below (ordered.child own)]

theorem imposeExtends (wider : Extends base upper) (baseOrdered : base.Ordered)
    (ordered : upper.Ordered) (r : Rule) (path : List String) :
    Extends base (impose r upper (some base) path) :=
  calc merge base (impose r upper (some base) path)
    _ = impose r (merge base upper) none path :=
        mergeImpose baseOrdered ordered (wider.sameKinds ordered) fun _ => wider.kind
    _ = impose r upper none path := by rw [wider]
    _ = impose r upper (some base) path := (imposeUnseeded wider ordered r path).symm

end

/-- What the schema of a list of rules is beside its base, after any number of rules. -/
structure Seeded (base upper : Schema) : Prop where
  ordered : upper.Ordered
  entries : ∀ name b u, base.property? name = some b → upper.property? name = some u → Extends b u
  names : upper.required.Nodup
  items : upper.items = none
  format : upper.format = none
  constraints : upper.constraints = .empty

theorem bareSeeded (base : Schema) : Seeded base (bare .object) where
  ordered := bareOrdered .object
  entries := nofun
  names := List.nodup_nil
  items := rfl
  format := rfl
  constraints := rfl

theorem imposeSeeded {base upper : Schema} (ordered : base.Ordered) (seeded : Seeded base upper)
    {r : Rule} {path : List String} (nonempty : path ≠ []) :
    Seeded base (impose r upper (some base) path) := by
  obtain ⟨name, rest, rfl⟩ := List.exists_cons_of_ne_nil nonempty
  refine ⟨imposeOrdered seeded.ordered (by simp [ordered]) _, fun other b u declared found => ?_,
    addNameNodup seeded.names name, seeded.items, seeded.format, seeded.constraints⟩
  rw [impose, propertyWithChild] at found
  split at found
  · rename_i same
    subst same
    -- The entry grows from what earlier rules made of it, or from the base's own.
    have child : ∃ child, upper.childOr (some base) name (bare (newKind r rest)) = child ∧
        Extends b child ∧ child.Ordered := by
      cases own : upper.property? name with
      | some child =>
        exact ⟨child, childOrOwn own _ _, seeded.entries name b child declared own,
          seeded.ordered.child own⟩
      | none =>
        exact ⟨b, by simp [childOr, own, declared], .refl (ordered.child declared),
          ordered.child declared⟩
    obtain ⟨child, chosen, wider, childOrdered⟩ := child
    rw [chosen, Option.bind_some, declared] at found
    cases found
    exact imposeExtends wider (ordered.child declared) childOrdered r rest
  · exact seeded.entries other b u declared found

theorem ofRulesSeeded {base upper : Schema} {rules : List Rule} (ordered : base.Ordered)
    (compiled : ofRules base rules = .ok upper) : Seeded base upper :=
  ofRulesInduction compiled (bareSeeded base) fun _ _ compiles seeded =>
    imposeSeeded ordered seeded compiles.segmentsNonempty

theorem mergePropertiesUnite {properties upper : List (String × Schema)}
    (ordered : Keyed.Ordered upper)
    (entries : ∀ p ∈ upper, ∀ b, Keyed.get? properties p.1 = some b → Extends b p.2) :
    mergeProperties properties upper =
      upper.foldl (fun properties p => Keyed.insert p.1 p.2 properties) properties := by
  induction upper generalizing properties with
  | nil => rfl
  | cons p rest ih =>
    obtain ⟨name, u⟩ := p
    have entry : mergeProperties properties ((name, u) :: rest) =
        mergeProperties (Keyed.insert name u properties) rest := by
      rw [mergeProperties]
      cases found : Keyed.get? properties name with
      | none => rfl
      | some b =>
        exact congrArg (fun child => mergeProperties (Keyed.insert name child properties) rest)
          (entries (name, u) List.mem_cons_self b found)
    rw [entry, List.foldl_cons]
    refine ih (List.pairwise_cons.mp ordered).2 fun q inside b found => ?_
    have other : name ≠ q.1 := by
      rintro rfl
      exact Keyed.headKeyFresh ordered (List.mem_map.mpr ⟨q, inside, rfl⟩)
    rw [Keyed.getInsert, if_neg other] at found
    exact entries q (List.mem_cons_of_mem _ inside) b found

theorem eraseDupsSelf {names : List String} (distinct : names.Nodup) : names.eraseDups = names := by
  induction names with
  | nil => rfl
  | cons name rest ih =>
    obtain ⟨fresh, tail⟩ := List.nodup_cons.mp distinct
    rw [List.eraseDups_cons, List.filter_eq_self.mpr, ih tail]
    intro other inside
    have differs : other ≠ name := fun same => fresh (same ▸ inside)
    simpa using differs

/-- Merging the schema of a list of rules over its base is their union one level deep: under each
name the schema declares stands its own entry, whole, under any other name the base's, and the
root keeps all but its properties and the names it requires. -/
theorem mergeUnites {base upper : Schema} {rules : List Rule} (ordered : base.Ordered)
    (compiled : ofRules base rules = .ok upper) :
    merge base upper = base.unite upper ∧
    ∀ name, (merge base upper).property? name =
      (upper.property? name).or (base.property? name) := by
  have seeded := ofRulesSeeded ordered compiled
  constructor
  · have entries : ∀ p ∈ upper.properties, ∀ b, base.property? p.1 = some b → Extends b p.2 :=
      fun p inside b found =>
        seeded.entries p.1 b p.2 found (Keyed.getOfMem seeded.ordered.keys inside)
    have properties := mergePropertiesUnite seeded.ordered.keys entries
    have names := eraseDupsSelf
      (seeded.names.filter fun name => decide (name ∉ base.required))
    rw [mergeFields, properties, foldAddName, names, seeded.items, seeded.format,
      seeded.constraints, Option.or_none, Option.or_none, Constraints.overlayEmpty]
    rfl
  · intro name
    rw [propertyMerge base seeded.ordered.keys]
    cases declared : base.property? name with
    | none => cases upper.property? name <;> rfl
    | some b =>
      cases own : upper.property? name with
      | none => rfl
      | some u => exact congrArg some (seeded.entries name b u declared own)

open Sample in
theorem mergeUnitesTaxed : ∃ upper totals,
    ofRules (infer .standard invoice) (rules ++ [taxRule, taxLimit]) = .ok upper ∧
      merge (infer .standard invoice) upper = (infer .standard invoice).unite upper ∧
      upper.property? "totals" = some totals ∧
      (merge (infer .standard invoice) upper).property? "totals" = some totals := by
  have declared : ((ofRules (infer .standard invoice)
      (rules ++ [taxRule, taxLimit])).toOption.bind fun upper =>
        upper.property? "totals").isSome = true := by
    decide +kernel
  cases compiled : ofRules (infer .standard invoice) (rules ++ [taxRule, taxLimit]) with
  | error e =>
    rw [compiled] at declared
    cases declared
  | ok upper =>
    rw [compiled] at declared
    obtain ⟨totals, own⟩ := Option.isSome_iff_exists.mp declared
    obtain ⟨union, entries⟩ := mergeUnites (inferOrdered .standard invoiceOrdered) compiled
    have merged := entries "totals"
    rw [show upper.property? "totals" = some totals from own] at merged
    exact ⟨upper, totals, rfl, union, own, merged⟩

end RuleSchema.Schema
