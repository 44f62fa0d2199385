import RuleSchema.Binary64.Shortest
import RuleSchema.Json.Basic
/-! JSON texts of values: on one line without blanks, or indented by two blanks a level.
Members are written in the order they have. -/
namespace RuleSchema

def Number.text : Number → String
  | .whole n => n.value.repr
  | .binary x => x.text

namespace Json

def escapedChar (c : Char) : List Char :=
  if c = '"' then ['\\', '"']
  else if c = '\\' then ['\\', '\\']
  else if c = '\n' then ['\\', 'n']
  else if c = '\r' then ['\\', 'r']
  else if c = '\t' then ['\\', 't']
  else if c.toNat = 0x08 then ['\\', 'b']
  else if c.toNat = 0x0C then ['\\', 'f']
  else if c.toNat < 0x20 then
    ['\\', 'u', '0', '0', Nat.digitChar (c.toNat / 16), Nat.digitChar (c.toNat % 16)]
  else [c]

def stringText (s : String) : String :=
  String.ofList ('"' :: s.toList.flatMap escapedChar ++ ['"'])

mutual
def compact : Json → String
  | .null => "null"
  | .bool true => "true"
  | .bool false => "false"
  | .number n => n.text
  | .string s => stringText s
  | .array xs => "[" ++ ",".intercalate (compactElements xs) ++ "]"
  | .object ms => "\x7b" ++ ",".intercalate (compactMembers ms) ++ "\x7d"
termination_by structural v => v

def compactElements : List Json → List String
  | [] => []
  | x :: xs => compact x :: compactElements xs
termination_by structural v => v

def compactMembers : List (String × Json) → List String
  | [] => []
  | (k, x) :: ms => (stringText k ++ ":" ++ compact x) :: compactMembers ms
termination_by structural v => v
end

/-- Items between brackets, each on a line of its own; no items, no lines. -/
def block (margin opening closing : String) (items : List String) : String :=
  if items.isEmpty then opening ++ closing
  else opening ++ "\n" ++ ",\n".intercalate (items.map fun item => margin ++ "  " ++ item) ++
    "\n" ++ margin ++ closing

mutual
def indented (margin : String) : Json → String
  | .null => "null"
  | .bool true => "true"
  | .bool false => "false"
  | .number n => n.text
  | .string s => stringText s
  | .array xs => block margin "[" "]" (indentedElements (margin ++ "  ") xs)
  | .object ms => block margin "\x7b" "\x7d" (indentedMembers (margin ++ "  ") ms)
termination_by structural v => v

def indentedElements (margin : String) : List Json → List String
  | [] => []
  | x :: xs => indented margin x :: indentedElements margin xs
termination_by structural v => v

def indentedMembers (margin : String) : List (String × Json) → List String
  | [] => []
  | (k, x) :: ms => (stringText k ++ ": " ++ indented margin x) :: indentedMembers margin ms
termination_by structural v => v
end

def pretty (v : Json) : String := indented "" v

end Json

end RuleSchema
