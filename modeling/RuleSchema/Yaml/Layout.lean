import RuleSchema.Yaml.Property
import RuleSchema.Yaml.Scalar
/-! The tokens of a text. The columns of nodes begin and end blocks, and a colon makes a key of
the node before it on its line, so a key's token may be put before tokens already read. -/
namespace RuleSchema.Yaml

/-- Where a key may have begun. One that must be a key stands in the column of its block. -/
structure PossibleKey where
  required : Bool
  place : Nat
  line : Nat
  column : Nat
  deriving DecidableEq, Repr

/-- A key has one line and 1024 characters. -/
def PossibleKey.isPast (key : PossibleKey) (c : Cursor) : Bool :=
  key.line < c.line || key.column + 1024 < c.column

/-- A text read up to a place. Tokens stand in reverse; `blocks` are the columns of open blocks,
innermost first; `keys` has an entry for every open bracket, innermost first, and a last one for
the blocks around them. -/
structure Layout where
  cursor : Cursor
  tokens : List Token
  blocks : List Nat
  keys : List (Option PossibleKey)
  keyAllowed : Bool
  deriving DecidableEq, Repr

namespace Layout

def start (text : List Char) : Layout := ⟨⟨0, 0, text⟩, [], [], [none], true⟩

def inFlow (s : Layout) : Bool := 1 < s.keys.length

/-- The first column to the right of the innermost block. -/
def least (s : Layout) : Nat := (s.blocks.head?.map (· + 1)).getD 0

/-- Puts a token behind the first `place` ones. -/
def insert (s : Layout) (place : Nat) (token : Token) : Layout :=
  let (later, earlier) := s.tokens.splitAt (s.tokens.length - place)
  { s with tokens := later ++ token :: earlier }

def add (s : Layout) (token : Token) (c : Cursor) : Layout :=
  { s with tokens := token :: s.tokens, cursor := c }

def mark (s : Layout) (token : Token) (length : Nat) : Layout :=
  s.add token (s.cursor.skip length)

def allowKey (s : Layout) (allowed : Bool) : Layout := { s with keyAllowed := allowed }

/-- What may have been a key is none, if it need not be one. -/
def dropKey? (s : Layout) : Option Layout :=
  match s.keys with
  | some key :: rest => if key.required then none else some { s with keys := none :: rest }
  | _ => some s

def noteKey? (s : Layout) : Option Layout :=
  if s.keyAllowed then
    s.dropKey?.map fun s =>
      let c := s.cursor
      let required := !s.inFlow && s.blocks.head? == some c.column
      { s with keys := some ⟨required, s.tokens.length, c.line, c.column⟩ :: s.keys.drop 1 }
  else some s

/-- Drops what can no longer become a key. -/
def dropPast? (s : Layout) : Option Layout :=
  let isPast (key : Option PossibleKey) : Bool := key.any (·.isPast s.cursor)
  let isMissed (key : Option PossibleKey) : Bool := isPast key && key.any (·.required)
  if s.keys.any isMissed then none
  else some { s with keys := s.keys.map fun key => if isPast key then none else key }

/-- Ends the blocks in a column and to the right of it. -/
def closeBlocks (s : Layout) (column : Nat) : Layout :=
  if s.inFlow then s
  else
    let closed := s.blocks.takeWhile (column ≤ ·)
    { s with
      tokens := closed.map (fun _ => .blockEnd) ++ s.tokens
      blocks := s.blocks.drop closed.length }

/-- Begins a block in a column, unless one begins there already; its token is put in a place. -/
def openBlock (s : Layout) (token : Token) (column place : Nat) : Layout :=
  if s.inFlow || column < s.least then s
  else { s.insert place token with blocks := column :: s.blocks }

/-- Past blanks, comments and line breaks. In blocks tabs are no blanks where a key may begin, and
one may begin behind a line break. A byte order mark may stand in front of a text. -/
def skipBlanks (inFlow : Bool) : Bool → Bool → Nat → Nat → List Char → Bool × Cursor
  | _, allowed, line, column, [] => (allowed, ⟨line, column, []⟩)
  | comment, allowed, line, column, c :: cs =>
    if isBreak c then skipBlanks inFlow false (allowed || !inFlow) (line + 1) 0 cs
    else if comment || c = ' ' || (c = '\t' && (inFlow || !allowed)) ||
        (c = '\ufeff' && line = 0 && column = 0) then
      skipBlanks inFlow comment allowed line (column + 1) cs
    else if c = '#' then skipBlanks inFlow true allowed line (column + 1) cs
    else (allowed, ⟨line, column, c :: cs⟩)

/-- Moves to where the next token begins. -/
def settle? (s : Layout) : Option Layout :=
  let c := s.cursor
  let (allowed, d) := skipBlanks s.inFlow false s.keyAllowed c.line c.column c.rest
  let s := { s with cursor := d, keyAllowed := allowed }
  s.dropPast?.map fun s => s.closeBlocks (d.column + 1)

/-- A marker of a document, which ends all blocks. -/
def marker? (s : Layout) (token : Token) : Option Layout :=
  (s.closeBlocks 0).dropKey?.map fun s => (s.mark token 3).allowKey false

def readDirective? (s : Layout) : Option Layout := do
  let s ← (s.closeBlocks 0).dropKey?
  let (token, next) ← directive? s.cursor
  some ((s.add token next).allowKey false)

def openFlow? (s : Layout) (token : Token) : Option Layout :=
  s.noteKey?.map fun s => { s.mark token 1 with keys := none :: s.keys, keyAllowed := true }

def closeFlow? (s : Layout) (token : Token) : Option Layout :=
  s.dropKey?.map fun s =>
    { s.mark token 1 with
      keys := if s.inFlow then s.keys.drop 1 else s.keys
      keyAllowed := false }

def comma? (s : Layout) : Option Layout :=
  s.dropKey?.map fun s => (s.mark .comma 1).allowKey true

/-- A dash or a question mark that begins a block, or goes on with the one in its column. -/
def enter? (s : Layout) (block : Token) : Option Layout :=
  if s.inFlow then some s
  else if s.keyAllowed then some (s.openBlock block s.cursor.column s.tokens.length)
  else none

def item? (s : Layout) : Option Layout := do
  let s ← (← s.enter? .sequenceStart).dropKey?
  some ((s.mark .item 1).allowKey true)

def key? (s : Layout) : Option Layout := do
  let s ← (← s.enter? .mappingStart).dropKey?
  some ((s.mark .key 1).allowKey !s.inFlow)

/-- A colon: its key is the node that has been noted, or else what stands behind the last
question mark. -/
def value? (s : Layout) : Option Layout :=
  match s.keys with
  | some key :: rest =>
    let s := (s.insert key.place .key).openBlock .mappingStart key.column key.place
    some ({ s with keys := none :: rest }.mark .value 1 |>.allowKey false)
  | _ => (s.enter? .mappingStart).map fun s => (s.mark .value 1).allowKey !s.inFlow

/-- A token that may begin a key, read by a function on the text. -/
def readWord? (s : Layout) (read : List Char → Option (Token × List Char)) : Option Layout := do
  let s ← s.noteKey?
  let (token, rest) ← read s.cursor.rest
  some ((s.add token (s.cursor.skipTo rest)).allowKey false)

def readAnchor? (s : Layout) (token : String → Token) : Option Layout :=
  s.readWord? fun cs => (anchorName? (cs.drop 1)).map fun (text, rest) => (token text, rest)

def readPlain? (s : Layout) : Option Layout := do
  let s ← s.noteKey?
  let c := s.cursor
  let (text, g, d) ← plain? s.inFlow s.least (c.rest.length + 1) (.blanks []) c
  some ((s.add (.scalar .plain (String.ofList text)) d).allowKey g.isBroken)

def readQuoted? (s : Layout) (double : Bool) : Option Layout := do
  let s ← s.noteKey?
  let c := s.cursor
  let (text, d) ← quoted? double (c.rest.length + 1) (c.skip 1)
  some ((s.add (.scalar .quoted (String.ofList text)) d).allowKey false)

def readBlock? (s : Layout) (style : Style) : Option Layout := do
  let s ← s.dropKey?
  let (text, d) ← block? s.blocks.head? s.cursor
  some ((s.add (.scalar style (String.ofList text)) d).allowKey true)

def readFrom? (s : Layout) (c : Char) (cs : List Char) : Option Layout :=
  let isMark := s.inFlow || isBlankOrEnd cs
  match c with
  | '[' => s.openFlow? .flowSequenceStart
  | ']' => s.closeFlow? .flowSequenceEnd
  | '\x7b' => s.openFlow? .flowMappingStart
  | '\x7d' => s.closeFlow? .flowMappingEnd
  | ',' => s.comma?
  | '-' => if isBlankOrEnd cs then s.item? else s.readPlain?
  | '?' => if isMark then s.key? else s.readPlain?
  | ':' => if isMark then s.value? else s.readPlain?
  | '*' => s.readAnchor? .aliasTo
  | '&' => s.readAnchor? .anchor
  | '!' => s.readWord? (tag? s.inFlow)
  | '|' => if s.inFlow then none else s.readBlock? .literal
  | '>' => if s.inFlow then none else s.readBlock? .folded
  | '\'' => s.readQuoted? false
  | '"' => s.readQuoted? true
  | c => if ['%', '@', '\x60', '\t'].contains c then none else s.readPlain?

def read? (s : Layout) : Option Layout :=
  if s.cursor.startsDocument then s.marker? .documentStart
  else if s.cursor.endsDocument then s.marker? .documentEnd
  else match s.cursor.rest with
    | [] => none
    | c :: cs => if c = '%' ∧ s.cursor.column = 0 then s.readDirective? else s.readFrom? c cs

/-- All tokens up to the end, where every block ends. -/
def tokens? : Nat → Layout → Option (List Token)
  | 0, _ => none
  | n + 1, s => do
    let s ← s.settle?
    if s.cursor.rest.isEmpty then (s.closeBlocks 0).dropKey?.map fun s => s.tokens.reverse
    else tokens? n (← s.read?)

end Layout

/-- The tokens of a text of printable characters. Each takes at least a character. -/
def Token.ofText? (text : String) : Option (List Token) :=
  if text.toList.all isPrintable then
    let cs := unixLines text.toList
    (Layout.start cs).tokens? (cs.length + 1)
  else none

end RuleSchema.Yaml
