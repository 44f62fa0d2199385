import RuleSchema.Keyed
/-! Text files. Each operation may fail, with a text that says how. -/
namespace RuleSchema

structure FileSystem (m : Type → Type) where
  exists? : String → m Bool
  read : String → m (Except String String)
  write : String → String → m (Except String Unit)
  /-- Moves a file over another in one step. -/
  rename : String → String → m (Except String Unit)

/-- Files of one directory, by name. -/
abbrev Files := Keyed String

namespace Files

def erase (files : Files) (name : String) : Files := files.filter fun f => f.1 != name

def notFound (name : String) : String := "no file " ++ name

/-- Names with a slash lead into directories, and there are none. -/
def isPlain (name : String) : Bool := name ≠ "" && !name.toList.contains '/'

end Files

/-- The file system whose state is the files themselves. -/
def FileSystem.inMemory : FileSystem (StateM Files) where
  exists? name := fun files => ((files.get? name).isSome, files)
  read name := fun files => match files.get? name with
    | some text => (.ok text, files)
    | none => (.error (Files.notFound name), files)
  write name text := fun files =>
    if Files.isPlain name then (.ok (), files.insert name text)
    else (.error (Files.notFound name), files)
  rename old new := fun files => match files.get? old with
    | some text => (.ok (), (Files.erase files old).insert new text)
    | none => (.error (Files.notFound old), files)

end RuleSchema
