import RuleSchema.Admission.Candidate
import RuleSchema.Rule.Line
import RuleSchema.Store.Basic
/-! Sessions: a base schema and the rules admitted on it. A session changes only by an
admission whose rule a store has accepted. -/
namespace RuleSchema

structure Session where
  base : Schema
  config : Config
  rules : List Rule
  deriving Repr

namespace Session

def new (base : Schema) (config : Config) : Session := ⟨base, config, []⟩

def ofSample (sample : Json) (config : Config) : Session := new (Schema.infer config sample) config

/-- The session with rules of an earlier one, taken as they are. -/
def withRules (s : Session) (rules : List Rule) : Session := { s with rules := rules }

/-- What would come of a proposal. -/
def addRule (s : Session) (fresh : String) (p : Proposal) (document : Json) :
    Except Rejection Rule :=
  admitRule s.config document s.base s.rules fresh p

def mergedSchema (s : Session) : Schema := s.base.withRules s.rules

def engine (s : Session) : Except SchemaFault Engine :=
  Engine.compile s.mergedSchema s.rules s.config

def validate (s : Session) (document : Json) : Except SchemaFault Report :=
  s.engine.map fun e => e.validate document

section
variable {m : Type → Type} [Monad m]

/-- Stores the merged schema. That the store fails is no failure of the session. -/
def publish (s : Session) (store : Store m) : m Unit := do
  let _ ← store.upsertSchema s.config.schemaName s.mergedSchema.toJson
  return ()

/-- Admits a proposal: the rule is saved, then taken into the session, then the merged schema
is stored. -/
def adopt (s : Session) (store : Store m) (fresh : String) (p : Proposal) (document : Json) :
    m (Except Rejection Rule × Session) := do
  match s.addRule fresh p document with
  | .error e => return (.error e, s)
  | .ok rule => match ← store.saveRule rule with
    | .error e => return (.error (.store e), s)
    | .ok saved =>
      let next := { s with rules := s.rules ++ [saved] }
      next.publish store
      return (.ok saved, next)

/-- What a line of input led to. -/
inductive Entry where
  | accepted (rule : Rule)
  | rejected (why : Rejection)

def Entry.text : Entry → String
  | .accepted rule => "accepted " ++ rule.id ++ ": " ++ rule.text
  | .rejected why => "rejected: " ++ why.message

def Entry.isAccepted : Entry → Bool
  | .accepted _ => true
  | .rejected _ => false

inductive LineResult where
  | skipped
  | finished
  | entered (entry : Entry) (s : Session)

/-- Takes one line of input: blank lines count for nothing, the last word ends the input, any
other line makes an entry. -/
def takeLine (s : Session) (store : Store m) (fresh : String) (document : Json) (line : String) :
    m LineResult := do
  if Text.trim line = "" then return .skipped
  match InputLine.parse line with
  | .ok .done => return .finished
  | .error e => return .entered (.rejected (.shape e)) s
  | .ok (.proposal p) => match ← s.adopt store fresh p document with
    | (.ok rule, next) => return .entered (.accepted rule) next
    | (.error why, next) => return .entered (.rejected why) next

/-- Takes lines up to the one that ends the input; each has its own fresh identifier. -/
def collect (s : Session) (store : Store m) (document : Json) :
    List (String × String) → m (List Entry × Session)
  | [] => return ([], s)
  | (fresh, line) :: rest => do
    match ← s.takeLine store fresh document line with
    | .skipped => collect s store document rest
    | .finished => return ([], s)
    | .entered entry next =>
      let (entries, last) ← collect next store document rest
      return (entry :: entries, last)

end

/-- The closing line: how many rules came in since the session had `before`. -/
def closingText (before : Nat) (s : Session) : String :=
  (s.rules.length - before).repr ++ " rule(s) committed"

end Session

end RuleSchema
