import RuleSchema.Json.Reader
import RuleSchema.Yaml.Cursor
/-! Scalars of YAML texts: plain, in single or double quotes, and as blocks of lines. Readers
begin at the first character of what they read. -/
namespace RuleSchema.Yaml

/-- What stands between two words of a scalar: blanks, or line breaks with the first one apart.
A break that is escaped is no first one. -/
inductive Gap where
  | blanks (text : List Char)
  | breaks (first : Option Char) (others : List Char)
  deriving DecidableEq, Repr

namespace Gap

def isBroken : Gap → Bool
  | .blanks _ => false
  | .breaks _ _ => true

def withBlank (c : Char) : Gap → Gap
  | .blanks text => .blanks (text ++ [c])
  | g => g

def withBreak (c : Char) : Gap → Gap
  | .blanks _ => .breaks (some c) []
  | .breaks first others => .breaks first (others ++ [c])

/-- What a gap leaves: one line break becomes a blank, of several the first is dropped. -/
def folded : Gap → List Char
  | .blanks text => text
  | .breaks (some '\n') others => if others.isEmpty then [' '] else others
  | .breaks first others => first.toList ++ others

/-- Reads on in a gap. No line may be indented by tabs before the least column. -/
def read? (least : Nat) : Gap → Nat → Nat → List Char → Option (Gap × Cursor)
  | g, line, column, [] => some (g, ⟨line, column, []⟩)
  | g, line, column, c :: cs =>
    if isBreak c then read? least (g.withBreak c) (line + 1) 0 cs
    else if isBlank c then
      if g.isBroken && column < least && c = '\t' then none
      else read? least (g.withBlank c) line (column + 1) cs
    else some (g, ⟨line, column, c :: cs⟩)

end Gap

def Cursor.gap? (c : Cursor) (least : Nat) (g : Gap) : Option (Gap × Cursor) :=
  g.read? least c.line c.column c.rest

/-- A word of a plain scalar. In brackets no colon may touch a mark. -/
def plainWord? (inFlow : Bool) : List Char → Option (List Char)
  | [] => some []
  | c :: cs =>
    let touches := match cs with
      | next :: _ => next = '?' || isFlowMark next
      | [] => false
    if isBlank c || isBreak c || (c = ':' && isBlankOrEnd cs) || (inFlow && isFlowMark c) then
      some []
    else if inFlow && c = ':' && touches then none
    else (plainWord? inFlow cs).map (c :: ·)

/-- The words of a plain scalar and the gap behind them. Outside brackets all its lines reach
the least column. -/
def plain? (inFlow : Bool) (least : Nat) : Nat → Gap → Cursor → Option (List Char × Gap × Cursor)
  | 0, _, _ => none
  | n + 1, g, c =>
    if c.isAtMarker || c.rest.head? == some '#' then some ([], g, c)
    else do
      let word ← plainWord? inFlow c.rest
      let (text, g) := if word.isEmpty then ([], g) else (g.folded ++ word, .blanks [])
      let d := c.skip word.length
      if d.rest.isEmpty || !isBlankOrEnd d.rest then some (text, g, d)
      else
        let (g, d) ← d.gap? least g
        if !inFlow && d.column < least then some (text, g, d)
        else
          let (more, g, d) ← plain? inFlow least n g d
          some (text ++ more, g, d)

def hexDigits? (cs : List Char) : Option Nat :=
  cs.foldlM (fun n c => (Json.hexDigit? c).map fun d => 16 * n + d) 0

/-- The character an escape stands for and how long it is, the backslash not counted. -/
def escape? (cs : List Char) : Option (Char × Nat) :=
  let code (count : Nat) : Option (Char × Nat) :=
    let ds := (cs.drop 1).take count
    if ds.length = count then
      (hexDigits? ds).bind fun n =>
        if (0xD800 ≤ n ∧ n < 0xE000) ∨ 0x10FFFF < n then none else some (Char.ofNat n, count + 1)
    else none
  match cs with
  | [] => none
  | c :: _ => match c with
    | '0' => some ('\x00', 1)
    | 'a' => some ('\x07', 1)
    | 'b' => some ('\x08', 1)
    | 't' | '\t' => some ('\t', 1)
    | 'n' => some ('\n', 1)
    | 'v' => some ('\x0b', 1)
    | 'f' => some ('\x0c', 1)
    | 'r' => some ('\r', 1)
    | 'e' => some ('\x1b', 1)
    | 'N' => some ('\u0085', 1)
    | '_' => some ('\u00a0', 1)
    | 'L' => some ('\u2028', 1)
    | 'P' => some ('\u2029', 1)
    | 'x' => code 2
    | 'u' => code 4
    | 'U' => code 8
    | c => if c = ' ' ∨ c = '"' ∨ c = '/' ∨ c = '\\' then some (c, 1) else none

/-- The rest of a text in single or double quotes. In single quotes a quote is written twice; in
double quotes a backslash escapes, and a line break behind it leaves nothing. -/
def quoted? (double : Bool) : Nat → Cursor → Option (List Char × Cursor)
  | 0, _ => none
  | n + 1, c =>
    let follow (piece : List Char) (d : Cursor) : Option (List Char × Cursor) :=
      (quoted? double n d).map fun (text, e) => (piece ++ text, e)
    let fold (g : Gap) (d : Cursor) : Option (List Char × Cursor) :=
      (d.gap? 0 g).bind fun (g, e) => follow g.folded e
    match c.rest with
    | [] => none
    | ch :: cs =>
      if c.isAtMarker then none
      else if isBlank ch || isBreak ch then fold (.blanks []) c
      else if double then
        if ch = '"' then some ([], c.skip 1)
        else if ch = '\\' then
          if !cs.isEmpty && isLineEnd cs then fold (.breaks none []) (c.skip 1).skipBreak
          else (escape? cs).bind fun (e, length) => follow [e] (c.skip (length + 1))
        else follow [ch] (c.skip 1)
      else if ch = '\'' then
        if cs.head? == some '\'' then follow [ch] (c.skip 2) else some ([], c.skip 1)
      else follow [ch] (c.skip 1)

/-- What is done with the line breaks at the end of a block of lines. -/
inductive Chomping where
  | strip
  | clip
  | keep
  deriving DecidableEq, Repr

namespace Chomping

def ofChar? (c : Char) : Option Chomping :=
  if c = '+' then some .keep else if c = '-' then some .strip else none

/-- What is left of the break behind the last line and of those after it. -/
def ending (chomping : Chomping) (last others : List Char) : List Char :=
  match chomping with
  | .strip => []
  | .clip => last
  | .keep => last ++ others

end Chomping

def depth? (c : Char) : Option Nat :=
  if '1' ≤ c ∧ c ≤ '9' then some (c.toNat - '0'.toNat) else none

/-- The depth and the chomping that the head of a block gives, in either order, and the text
behind them. -/
def blockHead (cs : List Char) : Option Nat × Chomping × List Char :=
  match cs with
  | [] => (none, .clip, [])
  | a :: rest => match Chomping.ofChar? a, depth? a with
    | some chomping, _ => match rest.head?.bind depth? with
      | some depth => (some depth, chomping, rest.drop 1)
      | none => (none, chomping, rest)
    | none, some depth => match rest.head?.bind Chomping.ofChar? with
      | some chomping => (some depth, chomping, rest.drop 1)
      | none => (some depth, .clip, rest)
    | none, none => (none, .clip, cs)

/-- The breaks of empty lines, the widest column reached, and the next line of text behind its
indentation, which may not hold tabs. -/
def emptyLines? (indent : Option Nat) :
    Nat → Nat → Nat → List Char → Option (List Char × Nat × Cursor)
  | widest, line, column, [] => some ([], max widest column, ⟨line, column, []⟩)
  | widest, line, column, c :: cs =>
    let isBefore := indent.all (column < ·)
    if c = ' ' && isBefore then emptyLines? indent widest line (column + 1) cs
    else if c = '\t' && isBefore then none
    else if isBreak c then
      (emptyLines? indent (max widest column) (line + 1) 0 cs).map fun (breaks, found) =>
        (c :: breaks, found)
    else some ([], max widest column, ⟨line, column, c :: cs⟩)

/-- The lines of a block. `last` is the break behind the line before, `others` those of the
empty lines since; where lines are folded, a single break between lines that do not begin with a
blank becomes a blank. -/
def blockLines? (fold : Bool) (chomping : Chomping) (indent : Nat) :
    Nat → Bool → List Char → List Char → Cursor → Option (List Char × Cursor)
  | 0, _, _, _, _ => none
  | n + 1, wasBlank, last, others, c =>
    if c.column = indent && !c.rest.isEmpty then do
      let isBlank := isBlank (c.rest.headD ' ')
      let joint :=
        if fold && last == ['\n'] && !wasBlank && !isBlank then
          (if others.isEmpty then [' '] else [])
        else last
      let words := c.rest.takeWhile (!isBreak ·)
      let d := c.skip words.length
      let e := d.skipBreak
      let (breaks, _, next) ← emptyLines? (some indent) 0 e.line e.column e.rest
      let (text, f) ← blockLines? fold chomping indent n isBlank (d.rest.take 1) breaks next
      some (joint ++ others ++ words ++ text, f)
    else some (chomping.ending last others, c)

/-- A block of lines in a block of nodes that begins in column `parent`. -/
def block? (parent : Option Nat) (c : Cursor) : Option (List Char × Cursor) := do
  let (depth, chomping, rest) := blockHead (c.rest.drop 1)
  let d ← (c.skipTo rest).nextLine?
  let indent := depth.map (parent.getD 0 + ·)
  let (breaks, widest, e) ← emptyLines? indent 0 d.line d.column d.rest
  let indent := indent.getD (max (max widest 1) ((parent.map (· + 1)).getD 0))
  blockLines? (c.rest.head? == some '>') chomping indent (d.rest.length + 1) false [] breaks e

end RuleSchema.Yaml
