/-! Places in YAML texts, and the characters that divide them: blanks, line breaks and the
markers of a document. -/
namespace RuleSchema.Yaml

def isBlank (c : Char) : Bool := c = ' ' || c = '\t'

def isBreak (c : Char) : Bool := c = '\n' || c = '\u2028' || c = '\u2029'

def isWord (c : Char) : Bool := c.isAlphanum || c = '_' || c = '-'

/-- The characters that divide nodes in brackets. -/
def isFlowMark (c : Char) : Bool := [',', '[', ']', '\x7b', '\x7d'].contains c

def isLineEnd : List Char → Bool
  | [] => true
  | c :: _ => isBreak c

def isBlankOrEnd : List Char → Bool
  | [] => true
  | c :: _ => isBlank c || isBreak c

def isPrintable (c : Char) : Bool :=
  let n := c.toNat
  n = 0x09 || n = 0x0A || n = 0x0D || (0x20 ≤ n && n ≤ 0x7E) || n = 0x85 ||
    (0xA0 ≤ n && n ≤ 0xFFFD) || 0x10000 ≤ n

/-- Line breaks in one form, the separators of lines and paragraphs apart. -/
def unixLines : List Char → List Char
  | '\r' :: '\n' :: cs => '\n' :: unixLines cs
  | c :: cs => (if c = '\r' ∨ c = '\u0085' then '\n' else c) :: unixLines cs
  | [] => []

/-- A place in a text: its line and column, and the text from there on. -/
structure Cursor where
  line : Nat
  column : Nat
  rest : List Char
  deriving DecidableEq, Repr

namespace Cursor

def skip (c : Cursor) (count : Nat) : Cursor :=
  { c with column := c.column + count, rest := c.rest.drop count }

/-- Ahead on the line to where the given text is left. -/
def skipTo (c : Cursor) (rest : List Char) : Cursor := c.skip (c.rest.length - rest.length)

def skipWhile (c : Cursor) (test : Char → Bool) : Cursor :=
  c.skip (c.rest.takeWhile test).length

def skipBreak (c : Cursor) : Cursor :=
  match c.rest with
  | [] => c
  | ch :: cs => if isBreak ch then ⟨c.line + 1, 0, cs⟩ else c

/-- The next line, if nothing but a comment stands before it. -/
def nextLine? (c : Cursor) : Option Cursor :=
  let d := c.skipWhile isBlank
  let e := if d.rest.head? == some '#' then d.skipWhile (!isBreak ·) else d
  if isLineEnd e.rest then some e.skipBreak else none

def isMarker (c : Cursor) (mark : Char) : Bool :=
  c.column = 0 && c.rest.take 3 == [mark, mark, mark] && isBlankOrEnd (c.rest.drop 3)

def startsDocument (c : Cursor) : Bool := c.isMarker '-'
def endsDocument (c : Cursor) : Bool := c.isMarker '.'
def isAtMarker (c : Cursor) : Bool := c.startsDocument || c.endsDocument

end Cursor

end RuleSchema.Yaml
