import RuleSchema.Json.Basic
import RuleSchema.Text.Separated
/-! JSON pointers: tokens behind slashes, where a tilde is written `~0` and a slash `~1`. -/
namespace RuleSchema

namespace Pointer

def escapedChar (c : Char) : List Char :=
  if c = '~' then ['~', '0'] else if c = '/' then ['~', '1'] else [c]

def escapeChars (cs : List Char) : List Char := cs.flatMap escapedChar

/-- A tilde that begins neither escape stands for itself. -/
def unescapeChars : List Char → List Char
  | '~' :: '0' :: cs => '~' :: unescapeChars cs
  | '~' :: '1' :: cs => '/' :: unescapeChars cs
  | c :: cs => c :: unescapeChars cs
  | [] => []

def escape (token : String) : String := String.ofList (escapeChars token.toList)
def unescape (token : String) : String := String.ofList (unescapeChars token.toList)

/-- The pointer to a place given by its tokens, root first. -/
def ofTokens (tokens : List String) : String :=
  String.join (tokens.map fun t => "/" ++ escape t)

/-- The tokens of a pointer. The empty text points to the root; any other begins with a slash. -/
def tokens? (pointer : String) : Option (List String) :=
  if pointer = "" then some []
  else match Text.fields '/' pointer with
    | "" :: tokens => some (tokens.map unescape)
    | _ => none

/-- An array index: digits, the first of several not a zero. -/
def index? (token : String) : Option Nat :=
  let cs := token.toList
  if cs.isEmpty || !cs.all Char.isDigit || (cs.head? == some '0' && cs.length != 1) then none
  else some (cs.foldl (fun n c => 10 * n + (c.toNat - '0'.toNat)) 0)

end Pointer

namespace Json

/-- One step down: a member of an object or an element of an array. -/
def child? : Json → String → Option Json
  | .object members, token => Keyed.get? members token
  | .array elements, token => (Pointer.index? token).bind fun i => elements[i]?
  | _, _ => none

def descend? (v : Json) (tokens : List String) : Option Json :=
  tokens.foldl (fun v token => v.bind fun v => v.child? token) (some v)

def at? (v : Json) (pointer : String) : Option Json :=
  (Pointer.tokens? pointer).bind v.descend?

end Json

end RuleSchema
