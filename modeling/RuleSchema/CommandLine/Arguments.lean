import RuleSchema.CommandLine.Command
/-! The grammar of the arguments. Options stand before and after the command and among its
operands, a double dash ends them; an option may be given once on either side. -/
namespace RuleSchema.CommandLine

/-- The options a command knows by their long names. -/
structure OptionTable where
  flags : List String
  valued : List String
  deriving Repr

/-- Options that stand on both sides of the command. -/
def globalOptions : OptionTable := ⟨["json-logs"], ["config"]⟩

def commandOptions : String → Option OptionTable
  | "infer" => some ⟨["compact"], []⟩
  | "fields" => some ⟨[], ["sample", "schema"]⟩
  | "validate" => some ⟨["json"], ["sample", "schema", "rules", "repository"]⟩
  | "session" => some ⟨["resume"], ["sample", "schema", "document", "repository"]⟩
  | _ => none

def OptionTable.append (a b : OptionTable) : OptionTable :=
  ⟨a.flags ++ b.flags, a.valued ++ b.valued⟩

/-- What has been read on one side of the command. -/
structure Given where
  flags : List String
  values : List (String × String)
  operands : List String
  deriving Repr

def Given.nothing : Given := ⟨[], [], []⟩

def Given.value? (g : Given) (name : String) : Option String :=
  (g.values.find? fun p => p.1 == name).map Prod.snd

/-- How the reading of arguments stops. -/
inductive Stop where
  | version
  | help
  | usage
  deriving DecidableEq, Repr

def addFlag (g : Given) (name : String) : Except Stop Given :=
  if g.flags.contains name then .error .usage else .ok { g with flags := g.flags ++ [name] }

def addValue (g : Given) (name value : String) : Except Stop Given :=
  if value = "" ∨ (g.value? name).isSome then .error .usage
  else .ok { g with values := g.values ++ [(name, value)] }

def addOperand (g : Given) (operand : String) : Except Stop Given :=
  if operand = "" then .error .usage else .ok { g with operands := g.operands ++ [operand] }

def isOption (word : String) : Bool := word.toList.head? == some '-' && word ≠ "-"

def readLetters (onTop : Bool) : List Char → Except Stop Unit
  | [] => .ok ()
  | 'v' :: rest => readLetters onTop rest
  | 'h' :: _ => .error .help
  | 'V' :: _ => if onTop then .error .version else .error .usage
  | _ => .error .usage

/-- An option behind two dashes, and the words after it and its value. -/
def readLong (table : OptionTable) (onTop : Bool) (body : List Char) (rest : List String)
    (g : Given) : Except Stop (Given × List String) :=
  let name := String.ofList (body.takeWhile (· != '='))
  let joined := match body.dropWhile (· != '=') with
    | _ :: value => some (String.ofList value)
    | [] => none
  if table.valued.contains name then
    match joined, rest with
    | some value, _ => (addValue g name value).map fun g => (g, rest)
    | none, value :: rest =>
      if isOption value then .error .usage else (addValue g name value).map fun g => (g, rest)
    | none, [] => .error .usage
  else if joined.isSome then .error .usage
  else if name = "help" then .error .help
  else if name = "version" && onTop then .error .version
  else if name = "verbose" then .ok (g, rest)
  else if table.flags.contains name then (addFlag g name).map fun g => (g, rest)
  else .error .usage

/-- Reads options, and operands if there is a command already; otherwise the first word that is
no option ends the reading. The number bounds the words. -/
def readWords (table : OptionTable) (onTop : Bool) :
    Nat → Given → List String → Except Stop (Given × List String)
  | 0, g, words => .ok (g, words)
  | _, g, [] => .ok (g, [])
  | n + 1, g, word :: rest => match word.toList with
    | ['-', '-'] =>
      if onTop then .error .usage
      else (rest.foldlM addOperand g).map fun g => (g, [])
    | '-' :: '-' :: body => do
      let (g, rest) ← readLong table onTop body rest g
      readWords table onTop n g rest
    | '-' :: letter :: letters => do
      readLetters onTop (letter :: letters)
      readWords table onTop n g rest
    | _ =>
      if onTop then .ok (g, word :: rest)
      else do
        let g ← addOperand g word
        readWords table onTop n g rest

/-- One source, and not both. -/
def baseSource (g : Given) : Except Stop BaseSource :=
  match g.value? "sample", g.value? "schema" with
  | some s, none => .ok ⟨some s, none⟩
  | none, some s => .ok ⟨none, some s⟩
  | _, _ => .error .usage

def noOperands (g : Given) : Except Stop Unit :=
  if g.operands.isEmpty then .ok () else .error .usage

def commandOf (name : String) (g : Given) : Except Stop Command :=
  match name with
  | "infer" => match g.operands with
    | [sample] => .ok (.infer sample (g.flags.contains "compact"))
    | _ => .error .usage
  | "fields" => do
    noOperands g
    .ok (.fields (← baseSource g))
  | "validate" => do
    let base ← baseSource g
    if g.operands.isEmpty then .error .usage
    else .ok (.validate ⟨base, g.value? "rules", g.value? "repository",
      g.flags.contains "json", g.operands⟩)
  | "session" => do
    noOperands g
    let base ← baseSource g
    let resume := g.flags.contains "resume"
    if resume && (g.value? "repository").isNone then .error .usage
    else .ok (.session ⟨base, g.value? "document", g.value? "repository", resume⟩)
  | _ => .error .usage

/-- Help on the program or on one of its commands. -/
def helpOn : List String → Except Stop Invocation
  | [] => .error .help
  | [name] => if name = "help" ∨ (commandOptions name).isSome then .error .help else .error .usage
  | _ => .error .usage

def readInvocation (words : List String) : Except Stop Invocation := do
  let (top, rest) ← readWords globalOptions true words.length .nothing words
  match rest with
  | [] => .error .usage
  | "help" :: rest => helpOn rest
  | name :: rest => match commandOptions name with
    | none => .error .usage
    | some table => do
      let (g, _) ← readWords (globalOptions.append table) false rest.length .nothing rest
      let command ← commandOf name g
      .ok ⟨(g.value? "config") <|> top.value? "config", command⟩

/-- What the arguments ask for; `none` if they are none the program knows. -/
def parse? (words : List String) : Option Request :=
  match readInvocation words with
  | .ok invocation => some (.run invocation)
  | .error .version => some .version
  | .error .help => some .help
  | .error .usage => none

end RuleSchema.CommandLine
