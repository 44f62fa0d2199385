import RuleSchema.Binary64.Basic
import RuleSchema.Text.Blank
/-! Numbers in running text: an optional sign, decimal digits with at most one point among
or beside them, and an optional power of ten. -/
namespace RuleSchema

def digitsValue (cs : List Char) : Nat :=
  cs.foldl (fun n c => 10 * n + (c.toNat - '0'.toNat)) 0

structure Numeral where
  negative : Bool
  digits : Nat
  exponent : Int
  deriving DecidableEq, Repr

namespace Numeral

def signed : List Char → Bool × List Char
  | '-' :: cs => (true, cs)
  | '+' :: cs => (false, cs)
  | cs => (false, cs)

/-- What stands after the digits: nothing, or the letter e and a power of ten. -/
def power? : List Char → Option Int
  | [] => some 0
  | c :: cs =>
    if c = 'e' ∨ c = 'E' then
      let (negative, ds) := signed cs
      if ds.isEmpty || !ds.all Char.isDigit then none
      else some (if negative then -digitsValue ds else digitsValue ds)
    else none

def ofChars? (cs : List Char) : Option Numeral :=
  let (negative, body) := signed cs
  let whole := body.takeWhile Char.isDigit
  let rest := body.dropWhile Char.isDigit
  let (fraction, rest) := match rest with
    | '.' :: cs => (cs.takeWhile Char.isDigit, cs.dropWhile Char.isDigit)
    | _ => ([], rest)
  if whole.isEmpty && fraction.isEmpty then none
  else (power? rest).map fun power =>
    ⟨negative, digitsValue (whole ++ fraction), power - fraction.length⟩

end Numeral

/-- The finite number a text stands for, blanks at its ends aside. -/
def Binary64.ofText? (s : String) : Option Binary64 :=
  (Numeral.ofChars? (Text.trimChars s.toList)).bind fun n =>
    Binary64.ofScientific? n.negative n.digits n.exponent

end RuleSchema
