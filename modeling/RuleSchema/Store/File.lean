import RuleSchema.Json.Printer
import RuleSchema.Json.Reader
import RuleSchema.Rule.Record
import RuleSchema.Store.Basic
import RuleSchema.Store.FileSystem
/-! The store in one JSON file. Every operation reads the file anew. A change is written to a
file beside it, which is then moved over it, so the file is never seen half written. -/
namespace RuleSchema

namespace SchemaRecord

def toJson (r : SchemaRecord) : Json :=
  .object [("name", .string r.name), ("content", r.content)]

def ofJson? (v : Json) : Option SchemaRecord :=
  match v.recordFields? ["name", "content"] with
  | some [name, content] => do
    let name ← Json.required? Json.text? name
    let content ← Json.required? (fun v => some v.sorted) content
    some ⟨name, content⟩
  | _ => none

end SchemaRecord

namespace Records

def toJson (r : Records) : Json :=
  .object [("rules", .array (r.rules.map Rule.toJson)),
    ("schemas", .object (r.schemas.map fun p => (p.1, p.2.toJson)))]

/-- Records under names. The last of two with one name counts, but both are read. -/
def schemasOfJson? : Json → Option (Keyed SchemaRecord)
  | .object members => do
    let pairs ← members.mapM fun p => do
      let record ← SchemaRecord.ofJson? p.2
      some (p.1, record)
    some (Keyed.ofPairs pairs)
  | _ => none

/-- Reads the members as they stand in the file, so that a repeated one is refused. -/
def ofTree? (v : Json) : Option Records :=
  match v.recordFields? ["rules", "schemas"] with
  | some [rules, schemas] => do
    let rules ← Json.defaulting? [] Rule.listOfJson? rules
    let schemas ← Json.defaulting? [] schemasOfJson? schemas
    some ⟨rules, schemas⟩
  | _ => none

def encode (r : Records) : String := r.toJson.pretty

/-- A blank text holds no records. -/
def decode (text : String) : Except StoreError Records :=
  if Text.trim text = "" then .ok empty
  else match (Json.readTree? text).bind ofTree? with
    | some r => .ok r
    | none => .error (.serialization "not the text of a repository")

end Records

namespace Store
variable {m : Type → Type} [Monad m]

/-- The records of a file. A missing file holds none. -/
def readFile (fs : FileSystem m) (path : String) : m (Except StoreError Records) := do
  if ← fs.exists? path then
    match ← fs.read path with
    | .ok text => return Records.decode text
    | .error detail => return .error (.io detail)
  else return .ok .empty

def siblingPath (path : String) : String := path ++ ".tmp"

def writeFile (fs : FileSystem m) (path : String) (r : Records) : m (Except StoreError Unit) := do
  match ← fs.write (siblingPath path) r.encode with
  | .error detail => return .error (.io detail)
  | .ok () => match ← fs.rename (siblingPath path) path with
    | .error detail => return .error (.io detail)
    | .ok () => return .ok ()

/-- Reads the file, changes its records and writes it. -/
def changeFile (fs : FileSystem m) (path : String) (change : Records → Records) :
    m (Except StoreError Unit) := do
  match ← readFile fs path with
  | .error e => return .error e
  | .ok r => writeFile fs path (change r)

def file (fs : FileSystem m) (path : String) : Store m where
  saveRule r := do
    let written ← changeFile fs path fun records => records.saveRule r
    return written.map fun () => r
  schema? name := do
    let records ← readFile fs path
    return records.map fun r => r.schemas.get? name
  upsertSchema name content := do
    let written ← changeFile fs path fun records => records.upsertSchema ⟨name, content⟩
    return written.map fun () => ⟨name, content⟩
  rules := do
    let records ← readFile fs path
    return records.map Records.rules

end Store

end RuleSchema
