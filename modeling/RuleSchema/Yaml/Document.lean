import RuleSchema.Yaml.Layout
/-! The tree of a document, read off its tokens. Where a node may be absent and none stands, it is
blank. -/
namespace RuleSchema.Yaml

/-- The tokens left, and the numbers of the anchors that have begun. -/
structure Reading where
  tokens : List Token
  anchors : List (String × Nat)
  deriving DecidableEq, Repr

namespace Reading

def past (r : Reading) : Reading := { r with tokens := r.tokens.drop 1 }

/-- Numbers an anchor by how many names are known; a name that is known gets the new number. -/
def withAnchor (r : Reading) (name : String) : Nat × Reading :=
  let number := r.anchors.length
  (number, { r with anchors := (name, number) :: r.anchors.filter fun p => p.1 ≠ name })

end Reading

/-- Handles with the tags they stand for, the first of a name counts. -/
abbrev Handles := List (String × String)

def standardHandles : Handles := [("!", "!"), ("!!", "tag:yaml.org,2002:")]

/-- A tag without a handle is whole. -/
def fullTag? (handles : Handles) (handle suffix : String) : Option String :=
  if handle.isEmpty then some suffix
  else (handles.find? fun p => p.1 == handle).map fun p => p.2 ++ suffix

/-- An anchor and a tag in either order, each at most once. -/
def property? (handles : Handles) (r : Reading) : Option (Property × Reading) :=
  match r.tokens with
  | .anchor name :: .tag handle suffix :: _ | .tag handle suffix :: .anchor name :: _ =>
    (fullTag? handles handle suffix).map fun tag =>
      let (number, r) := r.past.past.withAnchor name
      (⟨some number, some tag⟩, r)
  | .anchor name :: _ =>
    let (number, r) := r.past.withAnchor name
    some (⟨some number, none⟩, r)
  | .tag handle suffix :: _ =>
    (fullTag? handles handle suffix).map fun tag => (⟨none, some tag⟩, r.past)
  | _ => some (.none, r)

mutual
/-- A node. Only outside brackets may it be a block, and only as the key or value of a block may
it be a sequence without indentation. -/
def node? (handles : Handles) : Nat → Bool → Bool → Reading → Option (Yaml × Reading)
  | 0, _, _, _ => none
  | n + 1, block, unindented, r =>
    match r.tokens with
    | .aliasTo name :: _ =>
      (r.anchors.find? fun p => p.1 == name).map fun p => (.aliasTo p.2, r.past)
    | _ => (property? handles r).bind fun (p, r) =>
      match r.tokens, block, unindented with
      | .item :: _, _, true =>
        (unindentedItems? handles n r).map fun (xs, r) => (.sequence p xs, r)
      | .scalar style text :: _, _, _ => some (.scalar p style text, r.past)
      | .flowSequenceStart :: _, _, _ =>
        (flowItems? handles n true r.past).map fun (xs, r) => (.sequence p xs, r)
      | .flowMappingStart :: _, _, _ =>
        (flowPairs? handles n true r.past).map fun (ps, r) => (.mapping p ps, r)
      | .sequenceStart :: _, true, _ =>
        (items? handles n r.past).map fun (xs, r) => (.sequence p xs, r)
      | .mappingStart :: _, true, _ =>
        (pairs? handles n r.past).map fun (ps, r) => (.mapping p ps, r)
      | _, _, _ => if p = .none then none else some (.scalar p .plain "", r)

/-- A node, or blank before one of some tokens. -/
def nodeBefore? (handles : Handles) :
    Nat → List Token → Bool → Bool → Reading → Option (Yaml × Reading)
  | 0, _, _, _, _ => none
  | n + 1, ends, block, unindented, r => match r.tokens with
    | t :: _ => if ends.contains t then some (blank, r) else node? handles n block unindented r
    | [] => none

def items? (handles : Handles) : Nat → Reading → Option (List Yaml × Reading)
  | 0, _ => none
  | n + 1, r => match r.tokens with
    | .item :: _ => do
      let (x, r) ← nodeBefore? handles n [.item, .blockEnd] true false r.past
      let (xs, r) ← items? handles n r
      some (x :: xs, r)
    | .blockEnd :: _ => some ([], r.past)
    | _ => none

/-- The items of a sequence that stands in the column of its key, where nothing ends it. -/
def unindentedItems? (handles : Handles) : Nat → Reading → Option (List Yaml × Reading)
  | 0, _ => none
  | n + 1, r => match r.tokens with
    | .item :: _ => do
      let (x, r) ← nodeBefore? handles n [.item, .key, .value, .blockEnd] true false r.past
      let (xs, r) ← unindentedItems? handles n r
      some (x :: xs, r)
    | _ => some ([], r)

def pairs? (handles : Handles) : Nat → Reading → Option (List (Yaml × Yaml) × Reading)
  | 0, _ => none
  | n + 1, r => match r.tokens with
    | .key :: _ => do
      let ends := [.key, .value, .blockEnd]
      let (k, r) ← nodeBefore? handles n ends true true r.past
      let (v, r) ← match r.tokens with
        | .value :: _ => nodeBefore? handles n ends true true r.past
        | _ => some (blank, r)
      let (ps, r) ← pairs? handles n r
      some ((k, v) :: ps, r)
    | .blockEnd :: _ => some ([], r.past)
    | _ => none

/-- The items in brackets; all but the first stand behind a comma. An item may be a single pair. -/
def flowItems? (handles : Handles) : Nat → Bool → Reading → Option (List Yaml × Reading)
  | 0, _, _ => none
  | n + 1, isFirst, r => match r.tokens, isFirst with
    | .flowSequenceEnd :: _, _ => some ([], r.past)
    | .comma :: .flowSequenceEnd :: _, false => some ([], r.past.past)
    | .comma :: _, false => flowItem? handles n r.past
    | _, true => flowItem? handles n r
    | _, false => none

def flowItem? (handles : Handles) : Nat → Reading → Option (List Yaml × Reading)
  | 0, _ => none
  | n + 1, r => do
    let (x, r) ← match r.tokens with
      | .key :: _ => flowPair? handles n r.past
      | _ => node? handles n false false r
    let (xs, r) ← flowItems? handles n false r
    some (x :: xs, r)

/-- A single pair as an item, behind its question mark. Where the key is absent, the token in its
place is passed over. -/
def flowPair? (handles : Handles) : Nat → Reading → Option (Yaml × Reading)
  | 0, _ => none
  | n + 1, r => do
    let (k, r) ← match r.tokens with
      | .value :: _ | .comma :: _ | .flowSequenceEnd :: _ => some (blank, r.past)
      | _ => node? handles n false false r
    let (v, r) ← match r.tokens with
      | .value :: _ => nodeBefore? handles n [.comma, .flowSequenceEnd] false false r.past
      | _ => some (blank, r)
    some (.mapping .none [(k, v)], r)

/-- The pairs in braces; all but the first stand behind a comma. -/
def flowPairs? (handles : Handles) :
    Nat → Bool → Reading → Option (List (Yaml × Yaml) × Reading)
  | 0, _, _ => none
  | n + 1, isFirst, r => match r.tokens, isFirst with
    | .flowMappingEnd :: _, _ => some ([], r.past)
    | .comma :: .flowMappingEnd :: _, false => some ([], r.past.past)
    | .comma :: _, false => flowEntry? handles n r.past
    | _, true => flowEntry? handles n r
    | _, false => none

/-- A pair in braces and those after it; a node that is no key has no value. -/
def flowEntry? (handles : Handles) : Nat → Reading → Option (List (Yaml × Yaml) × Reading)
  | 0, _ => none
  | n + 1, r => do
    let ends := [.comma, .flowMappingEnd]
    let (k, v, r) ← match r.tokens with
      | .key :: _ => do
        let (k, r) ← nodeBefore? handles n (.value :: ends) false false r.past
        let (v, r) ← match r.tokens with
          | .value :: _ => nodeBefore? handles n ends false false r.past
          | _ => some (blank, r)
        some (k, v, r)
      | _ => (node? handles n false false r).map fun (k, r) => (k, blank, r)
    let (ps, r) ← flowPairs? handles n false r
    some ((k, v) :: ps, r)
end

/-- The tokens behind the directives of a document, and its handles. One version may be given,
1.1 or 1.2, and each handle once. -/
def directives? (versioned : Bool) (handles : Handles) : List Token → Option (Handles × List Token)
  | .version major minor :: ts =>
    if versioned ∨ major ≠ 1 ∨ (minor ≠ 1 ∧ minor ≠ 2) then none
    else directives? true handles ts
  | .handle name tags :: ts =>
    if handles.any fun p => p.1 == name then none
    else directives? versioned (handles ++ [(name, tags)]) ts
  | ts => some (handles ++ standardHandles, ts)

/-- The node of a document. Behind directives its start must be marked; behind that mark there may
be no node. -/
def root? (ts : List Token) : Option (Yaml × Reading) :=
  let bound := 4 * ts.length + 4
  match ts with
  | .version _ _ :: _ | .handle _ _ :: _ | .documentStart :: _ =>
    (directives? false [] ts).bind fun (handles, rest) => match rest with
      | [.documentStart] => some (blank, ⟨[], []⟩)
      | .documentStart :: rest =>
        nodeBefore? handles bound [.documentEnd] true false ⟨rest, []⟩
      | _ => none
  | _ => node? standardHandles bound true false ⟨ts, []⟩

/-- The tree of a text with one document, `none` inside if there is no document at all. -/
def parse? (text : String) : Option (Option Yaml) := do
  let ts ← Token.ofText? text
  if ts.isEmpty then some none
  else
    let (v, r) ← root? ts
    if r.tokens.all (· == .documentEnd) then some (some v) else none

end RuleSchema.Yaml
