import RuleSchema.CommandLine.Command
import RuleSchema.Config.Text
import RuleSchema.Schema.Fields
import RuleSchema.Schema.Reference
import RuleSchema.Session
import RuleSchema.Store.File
import RuleSchema.Store.Memory
/-! The commands, on the files and the output of any host. A command ends with an exit code or
fails; what it printed before stays printed. -/
namespace RuleSchema.CommandLine

inductive Failure where
  | loadingConfig (path : String)
  | loadingSchema (path : String)
  | reading (path : String)
  | parsing (path : String)
  | noRules (path : String)
  | readingRules (path : String)
  | noBase
  | noDocument
  | schemaFault (f : SchemaFault)
  deriving DecidableEq, Repr

def Failure.message : Failure → String
  | loadingConfig path => "loading config " ++ path
  | loadingSchema path => "loading schema " ++ path
  | reading path => "reading " ++ path
  | parsing path => "parsing " ++ path
  | noRules path => path ++ " is not an array of rules"
  | readingRules path => "reading rules from " ++ path
  | noBase => "either --sample or --schema is required"
  | noDocument => "--document is required when the schema is not inferred"
  | schemaFault f => f.message

/-- Exit codes. -/
def allWell : Nat := 0
def someInvalid : Nat := 1
def failed : Nat := 2

structure Host (m : Type → Type) where
  files : FileSystem m
  print : String → m Unit

section
variable {m : Type → Type} [Monad m] (host : Host m)

def Host.printLine (line : String) : m Unit := host.print (line ++ "\n")

def loadConfig (path : Option String) : ExceptT Failure m Config :=
  match path with
  | none => return Config.standard
  | some path => do
    match ← host.files.read path with
    | .error _ => throw (.loadingConfig path)
    | .ok text => match Config.parse? text with
      | none => throw (.loadingConfig path)
      | some config => return config

def readJson (path : String) : ExceptT Failure m Json := do
  match ← host.files.read path with
  | .error _ => throw (.reading path)
  | .ok text => match Json.parse? text with
    | none => throw (.parsing path)
    | some v => return v

def loadSchema (path : String) : ExceptT Failure m Schema := do
  match ← host.files.read path with
  | .error _ => throw (.loadingSchema path)
  | .ok text => match (Json.parse? text).map Schema.load with
    | some (.ok s) => return s
    | _ => throw (.loadingSchema path)

def loadBase (config : Config) (source : BaseSource) : ExceptT Failure m Schema :=
  match source.schema, source.sample with
  | some path, _ => loadSchema host path
  | none, some path => return Schema.infer config (← readJson host path)
  | none, none => throw .noBase

def infer (config : Config) (sample : String) (compact : Bool) : ExceptT Failure m Nat := do
  let v := (Schema.infer config (← readJson host sample)).toJson
  host.printLine (if compact then v.compact else v.pretty)
  return allWell

def fields (config : Config) (source : BaseSource) : ExceptT Failure m Nat := do
  let base ← loadBase host config source
  base.fieldPaths.forM fun path => (host.printLine path : ExceptT Failure m Unit)
  return allWell

/-- Rules from a file of rules, then those of a repository. -/
def collectRules (rules repository : Option String) : ExceptT Failure m (List Rule) := do
  let listed ← match rules with
    | none => pure []
    | some path => match Rule.listOfJson? (← readJson host path) with
      | none => throw (.noRules path)
      | some rules => pure rules
  let stored ← match repository with
    | none => pure []
    | some path => match ← (Store.file host.files path).rules with
      | .error _ => throw (.readingRules path)
      | .ok rules => pure rules
  return listed ++ stored

def reportText (json : Bool) (path : String) (report : Report) : String :=
  if json then (Json.object [("document", .string path), ("report", report.toJson)]).compact
  else if report.isValid then path ++ ": valid"
  else
    "\n".intercalate ((path ++ ": " ++ report.issues.length.repr ++ " issue(s)") ::
      report.issues.map fun i => "  " ++ i.text)

/-- Validates documents one after the other, and says whether all are valid. -/
def validateAll (engine : Engine) (json : Bool) : List String → ExceptT Failure m Bool
  | [] => return true
  | path :: rest => do
    let report := engine.validate (← readJson host path)
    host.printLine (reportText json path report)
    let others ← validateAll engine json rest
    return report.isValid && others

def validate (config : Config) (a : ValidateArguments) : ExceptT Failure m Nat := do
  let base ← loadBase host config a.base
  let rules ← collectRules host a.rules a.repository
  match Engine.ofBase base rules config with
  | .error f => throw (.schemaFault f)
  | .ok engine =>
    let valid ← validateAll host engine a.json a.documents
    return if valid then allWell else someInvalid

def openSession (config : Config) (a : SessionArguments) :
    ExceptT Failure m (Session × Json) := do
  let document ← match a.document <|> a.base.sample with
    | some path => readJson host path
    | none => throw .noDocument
  let s := Session.new (← loadBase host config a.base) config
  match a.repository with
  | none => return (s, document)
  | some path =>
    if a.resume then
      match ← (Store.file host.files path).rules with
      | .error _ => throw (.readingRules path)
      | .ok rules => return (s.withRules rules, document)
    else return (s, document)

/-- A session on lines of input, each with its fresh identifier. -/
def session (config : Config) (a : SessionArguments) (lines : List (String × String)) :
    ExceptT Failure m Nat := do
  let (s, document) ← openSession host config a
  let (entries, last) ← match a.repository with
    | some path => (s.collect (Store.file host.files path) document lines : m _)
    | none => ((s.collect Store.memory document lines).run' Records.empty : m _)
  entries.forM fun entry => (host.printLine entry.text : ExceptT Failure m Unit)
  host.printLine (Session.closingText s.rules.length last)
  return allWell

def run (lines : List (String × String)) (i : Invocation) : ExceptT Failure m Nat := do
  let config ← loadConfig host i.config
  match i.command with
  | .infer sample compact => infer host config sample compact
  | .fields base => fields host config base
  | .validate a => validate host config a
  | .session a => session host config a lines

end

/-- The files of a directory and what has been printed there. -/
structure Workspace where
  files : Files
  printed : String
  deriving Repr

/-- The host whose state is a workspace. -/
def Host.inMemory : Host (StateM Workspace) where
  files :=
    let on {α : Type} (x : StateM Files α) : StateM Workspace α := fun w =>
      let (a, files) := x w.files
      (a, { w with files := files })
    { exists? := fun name => on (FileSystem.inMemory.exists? name)
      read := fun name => on (FileSystem.inMemory.read name)
      write := fun name text => on (FileSystem.inMemory.write name text)
      rename := fun old new => on (FileSystem.inMemory.rename old new) }
  print text := fun w => ((), { w with printed := w.printed ++ text })

end RuleSchema.CommandLine
