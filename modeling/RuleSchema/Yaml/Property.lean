import RuleSchema.Json.Reader
import RuleSchema.Yaml.Cursor
import RuleSchema.Yaml.Token
/-! Anchors, aliases, tags and directives of YAML texts. Readers begin at the first character
of what they read. -/
namespace RuleSchema.Yaml

def name (cs : List Char) : String × List Char :=
  (String.ofList (cs.takeWhile isWord), cs.dropWhile isWord)

/-- The name of an anchor, behind which a blank or one of some marks must follow. -/
def anchorName? (cs : List Char) : Option (String × List Char) :=
  let (text, rest) := name cs
  let ends := isBlankOrEnd rest ||
    ['?', ':', ',', ']', '\x7d', '%', '@', '\x60'].contains (rest.headD ' ')
  if text.isEmpty || !ends then none else some (text, rest)

/-- How many octets follow the first one of a character in UTF-8. -/
def octetsBehind? (octet : Nat) : Option Nat :=
  if octet < 0x80 then some 0
  else if octet < 0xC0 then none
  else if octet < 0xE0 then some 1
  else if octet < 0xF0 then some 2
  else if octet < 0xF8 then some 3
  else none

def isTagChar (bracketed : Bool) (c : Char) : Bool :=
  isWord c || [';', '/', '?', ':', '@', '&', '=', '+', '$', '.', '!', '~', '*', '\'', '(',
    ')'].contains c || (bracketed && [',', '[', ']'].contains c)

/-- The octets of a tag and the text behind them. `awaited` octets of a character are still to
come, each as a percent sign and two digits. -/
def tagText? (bracketed : Bool) (awaited : Nat) : List Char → Option (List Char × List Char)
  | '%' :: a :: b :: cs => do
    let octet := 16 * (← Json.hexDigit? a) + (← Json.hexDigit? b)
    let awaited ← match awaited with
      | 0 => octetsBehind? octet
      | n + 1 => if 0x80 ≤ octet ∧ octet < 0xC0 then some n else none
    let (text, rest) ← tagText? bracketed awaited cs
    some (Char.ofNat octet :: text, rest)
  | c :: cs =>
    if awaited ≠ 0 ∨ c = '%' then none
    else if isTagChar bracketed c then
      (tagText? bracketed 0 cs).map fun (text, rest) => (c :: text, rest)
    else some ([], c :: cs)
  | [] => if awaited = 0 then some ([], []) else none

/-- A tag is kept up to its first null octet. -/
def tagOf (octets : List Char) : String := String.ofList (octets.takeWhile (· ≠ '\x00'))

/-- A tag's text that may not be absent. -/
def someTag? (bracketed : Bool) (cs : List Char) : Option (String × List Char) :=
  (tagText? bracketed 0 cs).bind fun (octets, rest) =>
    if octets.isEmpty then none else some (tagOf octets, rest)

/-- Handle and suffix: in angle brackets the whole tag, with a second exclamation mark a named
handle, else the handle of a single mark. -/
def handleAndSuffix? : List Char → Option (String × String × List Char)
  | '!' :: '<' :: cs => do
    let (text, rest) ← someTag? true cs
    if rest.head? == some '>' then some ("", text, rest.drop 1) else none
  | '!' :: cs =>
    let (word, rest) := name cs
    match rest with
    | '!' :: rest =>
      (someTag? false rest).map fun (suffix, rest) => ("!" ++ word ++ "!", suffix, rest)
    | _ => do
      let (octets, rest) ← tagText? false 0 rest
      let suffix := word ++ tagOf octets
      some (if suffix.isEmpty then ("", "!", rest) else ("!", suffix, rest))
  | _ => none

def tag? (inFlow : Bool) (cs : List Char) : Option (Token × List Char) := do
  let (handle, suffix, rest) ← handleAndSuffix? cs
  if isBlankOrEnd rest || (inFlow && rest.head? == some ',') then
    some (.tag handle suffix, rest)
  else none

/-- A number of at most nine digits. -/
def versionNumber? (cs : List Char) : Option (Nat × List Char) :=
  let digits := cs.takeWhile Char.isDigit
  if digits.isEmpty || 9 < digits.length then none
  else some (digits.foldl (fun n c => 10 * n + (c.toNat - '0'.toNat)) 0, cs.drop digits.length)

def version? (cs : List Char) : Option (Token × List Char) := do
  let (major, rest) ← versionNumber? cs
  if rest.head? == some '.' then
    let (minor, rest) ← versionNumber? (rest.drop 1)
    some (.version major minor, rest)
  else none

def handle? (cs : List Char) : Option (Token × List Char) := do
  let (word, rest) := name (cs.drop 1)
  let isNamed := rest.head? == some '!'
  let rest := if isNamed then rest.drop 1 else rest
  let handle := if isNamed then "!" ++ word ++ "!" else "!"
  if cs.head? == some '!' && (isNamed || word.isEmpty) && isBlank (rest.headD '!') then
    let (tags, rest) ← someTag? true (rest.dropWhile isBlank)
    if isBlankOrEnd rest then some (.handle handle tags, rest) else none
  else none

/-- A directive, which takes a line. -/
def directive? (c : Cursor) : Option (Token × Cursor) := do
  let (word, rest) := name (c.rest.drop 1)
  let value := rest.dropWhile isBlank
  let (token, rest) ←
    if !isBlankOrEnd rest then none
    else if word = "YAML" then version? value
    else if word = "TAG" then handle? value
    else none
  let next ← (c.skipTo rest).nextLine?
  some (token, next)

end RuleSchema.Yaml
