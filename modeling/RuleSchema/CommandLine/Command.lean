/-! What the program can be asked to do. -/
namespace RuleSchema.CommandLine

/-- Where the base schema comes from. If both are given the schema file counts. -/
structure BaseSource where
  sample : Option String
  schema : Option String
  deriving DecidableEq, Repr

structure ValidateArguments where
  base : BaseSource
  rules : Option String
  repository : Option String
  json : Bool
  documents : List String
  deriving DecidableEq, Repr

structure SessionArguments where
  base : BaseSource
  document : Option String
  repository : Option String
  resume : Bool
  deriving DecidableEq, Repr

inductive Command where
  | infer (sample : String) (compact : Bool)
  | fields (base : BaseSource)
  | validate (arguments : ValidateArguments)
  | session (arguments : SessionArguments)
  deriving DecidableEq, Repr

structure Invocation where
  config : Option String
  command : Command
  deriving DecidableEq, Repr

inductive Request where
  | run (invocation : Invocation)
  | version
  | help
  deriving DecidableEq, Repr

def programName : String := "jsre"

def versionText : String := programName ++ " 0.1.0"

def helpText : String := "\n".intercalate
  ["JSON schema rule engine.", "",
    "Infers structural schemas from sample documents, admits user rules against a reference " ++
      "document, and validates documents against the merged result.", "",
    "Usage: jsre [OPTIONS] <COMMAND>", "",
    "Commands:",
    "  infer     Print the structural schema inferred from a sample document",
    "  fields    List every dotted field path a schema declares",
    "  validate  Validate documents against a schema and a rule set",
    "  session   Collect rules from standard input until `done`",
    "  help      Print this message or the help of the given subcommand(s)", "",
    "Options:",
    "  -v, --verbose...       Enable verbose output",
    "      --json-logs        Emit logs as JSON lines",
    "      --config <CONFIG>  Path to the YAML engine configuration",
    "  -h, --help             Print help",
    "  -V, --version          Print version"]

end RuleSchema.CommandLine
