import RuleSchema.CommandLine.Arguments
import RuleSchema.CommandLine.Run
import RuleSchema.Identifier
import RuleSchema.Text.Line
/-! The program on the files, the input and the output of the system. A session answers each
line of input before it reads the next. -/
namespace RuleSchema.CommandLine

def attempt {α : Type} (act : IO α) : IO (Except String α) := do
  try
    let a ← act
    return .ok a
  catch e => return .error e.toString

/-- Whether an error says that there is nothing of that name. -/
def saysMissing : IO.Error → Bool
  | .noFileOrDirectory .. => true
  | .inappropriateType .. => true
  | _ => false

def fileExists (name : String) : IO Bool := do
  try
    let _ ← IO.FS.Handle.mk name .read
    return true
  catch e => return !saysMissing e

def systemHost : Host IO where
  files :=
    { exists? := fileExists
      read := fun name => attempt (IO.FS.readFile name)
      write := fun name text => attempt (IO.FS.writeFile name text)
      rename := fun old new => attempt (IO.FS.rename old new) }
  print text := do
    let out ← IO.getStdout
    out.putStr text
    out.flush

def freshIdentifier : IO String := do
  let bytes ← IO.getRandomBytes 16
  return Identifier.ofBits (bytes.toList.foldl (fun n b => 256 * n + b.toNat) 0)

/-- A store that lasts as long as the program runs. -/
def passingStore : IO (Store IO) := do
  let records ← IO.mkRef Records.empty
  return (Store.memory : Store (StateT Records IO)).lift fun act => do
    let (a, next) ← act.run (← records.get)
    records.set next
    return a

/-- Takes lines of input up to the one that ends it, and answers each. -/
partial def converse (s : Session) (store : Store IO) (document : Json) : IO Session := do
  let read ← (← IO.getStdin).getLine
  match Text.lines read with
  | [] => return s
  | line :: _ => match ← s.takeLine store (← freshIdentifier) document line with
    | .skipped => converse s store document
    | .finished => return s
    | .entered entry next =>
      systemHost.printLine entry.text
      converse next store document

def perform (i : Invocation) : ExceptT Failure IO Nat := do
  match i.command with
  | .session a =>
    let config ← loadConfig systemHost i.config
    let (s, document) ← openSession systemHost config a
    let store ← match a.repository with
      | some path => pure (Store.file systemHost.files path)
      | none => passingStore
    let last ← converse s store document
    systemHost.printLine (Session.closingText s.rules.length last)
    return allWell
  | _ => run systemHost [] i

def complain (message : String) : IO Nat := do
  IO.eprintln ("error: " ++ message)
  return failed

def answerRequest : Request → IO Nat
  | .version => do
    systemHost.printLine versionText
    return allWell
  | .help => do
    systemHost.printLine helpText
    return allWell
  | .run i => do
    match ← attempt (perform i).run with
    | .ok (.ok code) => return code
    | .ok (.error failure) => complain failure.message
    | .error message => complain message

/-- Does what the arguments ask for, and answers with the exit code. -/
def runProgram (args : List String) : IO UInt32 := do
  let code ← match parse? args with
    | some request => answerRequest request
    | none => complain ("unexpected arguments\n\n" ++ helpText)
  return UInt32.ofNat code

end RuleSchema.CommandLine

def main (args : List String) : IO UInt32 := RuleSchema.CommandLine.runProgram args
