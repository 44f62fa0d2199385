import RuleSchema.Proofs.Json.Reading
import RuleSchema.Store.File
/-! Records and their texts. Reading the tree records are written as gives the records again,
and so does decoding their text, if reading that text gives the tree it was printed from. -/
namespace RuleSchema

theorem Condition.ofJsonToken (c : Condition) : ofJson? (.string c.token) = some c :=
  ofTokenToken c

theorem Rule.ofJsonToJson (r : Rule) : ofJson? r.toJson = some r := by
  obtain ⟨id, field, condition, value, isValid, message⟩ := r
  have token := condition.ofJsonToken
  cases message <;>
    simp [ofJson?, toJson, toMembers, fieldNames, Json.recordFields?, Keyed.get?, Json.required?,
      Json.defaulting?, Json.optional?, Json.text?, Json.flag?, token]

theorem Rule.readable {depth : Nat} (r : Rule) : Json.Readable (depth + 1) r.toJson := by
  have plain : ∀ p ∈ r.toMembers, (∃ s, p.2 = .string s) ∨ ∃ b, p.2 = .bool b := by
    obtain ⟨id, field, condition, value, isValid, message⟩ := r
    cases message <;> simp [toMembers]
  refine .object fun p inside => ?_
  rcases plain p inside with ⟨s, text⟩ | ⟨b, flag⟩
  · exact text ▸ .string s
  · exact flag ▸ .bool b

theorem Rule.listRead (rules : List Rule) :
    listOfJson? (.array (rules.map toJson)) = some rules :=
  Json.readEach fun r _ => r.ofJsonToJson

theorem SchemaRecord.ofJsonToJson {r : SchemaRecord} (ordered : r.content.Ordered) :
    ofJson? r.toJson = some r := by
  simp [ofJson?, toJson, Json.recordFields?, Keyed.get?, Json.required?, Json.text?,
    Json.sortedSelf ordered]

theorem SchemaRecord.contentOrdered {v : Json} {r : SchemaRecord} (read : ofJson? v = some r) :
    r.content.Ordered := by
  unfold ofJson? at read
  split at read
  · rename_i content _
    obtain ⟨name, _, read⟩ := Option.bind_eq_some_iff.mp read
    obtain ⟨v, sorted, read⟩ := Option.bind_eq_some_iff.mp read
    cases read
    obtain ⟨written, _, same⟩ := Option.bind_eq_some_iff.mp sorted
    cases same
    exact Json.sortedOrdered written
  · cases read

namespace Records

/-- Records as a program holds them: schemas in the order of their names, and their contents
ordered. -/
structure Ordered (r : Records) : Prop where
  names : Keyed.Ordered r.schemas
  contents : ∀ p ∈ r.schemas, p.2.content.Ordered

theorem emptyOrdered : empty.Ordered := ⟨List.Pairwise.nil, nofun⟩

theorem saveRuleOrdered {r : Records} (ordered : r.Ordered) (rule : Rule) :
    (r.saveRule rule).Ordered :=
  ⟨ordered.names, ordered.contents⟩

theorem upsertSchemaOrdered {r : Records} (ordered : r.Ordered) {record : SchemaRecord}
    (content : record.content.Ordered) : (r.upsertSchema record).Ordered := by
  refine ⟨Keyed.insertOrdered ordered.names _ _, fun p inside => ?_⟩
  rcases Keyed.memInsert inside with rfl | old
  · exact content
  · exact ordered.contents p old

theorem schemasRead {schemas : Keyed SchemaRecord} (names : Keyed.Ordered schemas)
    (contents : ∀ p ∈ schemas, p.2.content.Ordered) :
    schemasOfJson? (.object (schemas.map fun p => (p.1, p.2.toJson))) = some schemas := by
  have pairs : (schemas.map fun p => (p.1, p.2.toJson)).mapM (fun p => do
      let record ← SchemaRecord.ofJson? p.2
      some (p.1, record)) = some schemas := by
    refine Json.readEach fun p inside => ?_
    simp only [SchemaRecord.ofJsonToJson (contents p inside)]
    rfl
  simp only [schemasOfJson?, pairs]
  exact congrArg some (Keyed.ofPairsSelf names)

theorem ofTreeToJson {r : Records} (ordered : r.Ordered) : ofTree? r.toJson = some r := by
  have rules := Rule.listRead r.rules
  have schemas := schemasRead ordered.names ordered.contents
  simp [ofTree?, toJson, Json.recordFields?, Keyed.get?, Json.defaulting?, rules, schemas]

theorem schemasOrdered {v : Json} {schemas : Keyed SchemaRecord}
    (read : schemasOfJson? v = some schemas) :
    Keyed.Ordered schemas ∧ ∀ p ∈ schemas, p.2.content.Ordered := by
  unfold schemasOfJson? at read
  split at read
  · obtain ⟨pairs, all, read⟩ := Option.bind_eq_some_iff.mp read
    cases read
    refine ⟨Keyed.ofPairsOrdered pairs, fun p inside => ?_⟩
    obtain ⟨member, _, one⟩ := Json.inReadAll all (Keyed.memOfPairs inside)
    obtain ⟨record, parsed, same⟩ := Option.bind_eq_some_iff.mp one
    cases same
    exact SchemaRecord.contentOrdered parsed
  · cases read

theorem ofTreeOrdered {tree : Json} {r : Records} (read : ofTree? tree = some r) : r.Ordered := by
  unfold ofTree? at read
  split at read
  · rename_i schemas _
    obtain ⟨rules, _, read⟩ := Option.bind_eq_some_iff.mp read
    obtain ⟨found, stored, read⟩ := Option.bind_eq_some_iff.mp read
    cases read
    cases schemas with
    | none =>
      cases stored
      exact ⟨List.Pairwise.nil, nofun⟩
    | some v =>
      obtain ⟨names, contents⟩ := schemasOrdered stored
      exact ⟨names, contents⟩
  · cases read

/-- The text of the records reads as the tree it was printed from. -/
def RoundTrips (r : Records) : Prop := Json.readTree? r.encode = some r.toJson

instance (r : Records) : Decidable r.RoundTrips :=
  decidable_of_iff (Json.ofChars? (Json.chars [] r.toJson) = some r.toJson)
    (by rw [RoundTrips, encode, Json.readPretty])

/-- Records round trip if the contents of their schemas can be read back where they stand. -/
theorem roundTripsOf {r : Records}
    (readable : ∀ p ∈ r.schemas, Json.Readable (Json.greatestNesting - 3) p.2.content) :
    r.RoundTrips := by
  refine Json.readsPrinted (.object (List.forall_mem_cons.mpr ⟨.array fun v inside => ?_,
    List.forall_mem_singleton.mpr (.object fun p inside => ?_)⟩))
  · obtain ⟨rule, _, rfl⟩ := List.mem_map.mp inside
    exact rule.readable
  · obtain ⟨record, there, rfl⟩ := List.mem_map.mp inside
    exact .object (List.forall_mem_cons.mpr ⟨.string _,
      List.forall_mem_singleton.mpr (readable record there)⟩)

theorem encodeNotBlank (r : Records) : Text.trim r.encode ≠ "" := by
  obtain ⟨rest, opening⟩ : ∃ rest, r.encode.toList = '\x7b' :: rest := by
    simp [encode, Json.pretty, toJson, Json.indented, Json.indentedMembers, Json.block]
  intro blank
  have none : Text.trimChars r.encode.toList = [] := by simpa [Text.trim] using blank
  have mark : Text.isBlank '\x7b' = false := by decide
  simp only [Text.trimChars, opening, List.dropWhile_cons, mark, Bool.false_eq_true, if_false,
    List.reverse_cons, List.dropWhile_append] at none
  split at none <;> simp at none

theorem decodeEncode {r : Records} (ordered : r.Ordered) (trips : r.RoundTrips) :
    decode r.encode = .ok r := by
  rw [decode, if_neg r.encodeNotBlank, trips, Option.bind_some, ofTreeToJson ordered]

theorem decodeOrdered {text : String} {r : Records} (decoded : decode text = .ok r) :
    r.Ordered := by
  unfold decode at decoded
  split at decoded
  · cases decoded
    exact emptyOrdered
  · split at decoded
    · rename_i found
      cases decoded
      obtain ⟨tree, _, read⟩ := Option.bind_eq_some_iff.mp found
      exact ofTreeOrdered read
    · cases decoded

end Records

end RuleSchema
