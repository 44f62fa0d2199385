import RuleSchema.Binary64.Numeral
import RuleSchema.Json.Basic
/-! Reading JSON texts. Nothing may stand before or after the value but blanks, and values
may be nested 127 deep. `readTree?` keeps the members of an object as they are written, so
that a repeated key can be seen; `parse?` orders them and lets the last one count. -/
namespace RuleSchema.Json

def isSpace (c : Char) : Bool := c = ' ' || c = '\n' || c = '\t' || c = '\r'

def skip (cs : List Char) : List Char := cs.dropWhile isSpace

/-- Digits taken up while the number they make is below 2^64. -/
def takeDigits (significand : Nat) : List Char → Nat × List Char
  | [] => (significand, [])
  | c :: cs =>
    let next := 10 * significand + (c.toNat - '0'.toNat)
    if 18446744073709551616 ≤ next then (significand, c :: cs) else takeDigits next cs

/-- Scales by a power of ten in steps of at most 10^308, each rounded for itself. -/
def scaledByTen? : Nat → Binary64 → Int → Option Binary64
  | 0, x, _ => some x
  | n + 1, x, e =>
    if e.natAbs ≤ 308 then
      (Binary64.ofScientific? false 1 e.natAbs).bind fun p => if 0 ≤ e then x.mul? p else x.div? p
    else if x.mantissa = 0 then some x
    else if 0 ≤ e then none
    else (Binary64.ofScientific? false 1 308).bind fun p =>
      (x.div? p).bind fun y => scaledByTen? n y (e + 308)

def binary? (negative : Bool) (significand : Nat) (exponent : Int) : Option Number :=
  (Binary64.ofInt? significand).bind fun x =>
    (scaledByTen? 4 x exponent).map fun y => .binary ⟨negative, y.mantissa, y.scale, y.fits⟩

/-- A number from its digits before and after the point and its power of ten. Whole numbers
of 64 bits stay exact; of other numbers the digits past 64 bits are left out. -/
def number? (negative : Bool) (whole : List Char) (fraction : Option (List Char))
    (power : Option Int) : Option Number :=
  let (significand, rest) := takeDigits 0 whole
  match fraction, power with
  | none, none =>
    let value : Int := if negative then -significand else significand
    match Whole.ofInt? value with
    | some n =>
      if rest.isEmpty && !(negative && significand == 0) then some (.whole n)
      else binary? negative significand rest.length
    | none => binary? negative significand rest.length
  | _, _ =>
    let ds := fraction.getD []
    let (all, left) := takeDigits significand ds
    binary? negative all (rest.length - (ds.length - left.length : Nat) + power.getD 0)

/-- The part of a number after its point. -/
def fractionPart? : List Char → Option (Option (List Char) × List Char)
  | '.' :: cs =>
    let ds := cs.takeWhile Char.isDigit
    if ds.isEmpty then none else some (some ds, cs.dropWhile Char.isDigit)
  | cs => some (none, cs)

def powerPart? : List Char → Option (Option Int × List Char)
  | [] => some (none, [])
  | c :: cs =>
    if c = 'e' ∨ c = 'E' then
      let (negative, body) := Numeral.signed cs
      let ds := body.takeWhile Char.isDigit
      if ds.isEmpty then none
      else
        let power : Int := digitsValue ds
        some (some (if negative then -power else power), body.dropWhile Char.isDigit)
    else some (none, c :: cs)

def numberToken? (cs : List Char) : Option (Number × List Char) :=
  let (negative, body) := match cs with
    | '-' :: rest => (true, rest)
    | _ => (false, cs)
  let whole := body.takeWhile Char.isDigit
  let rest := body.dropWhile Char.isDigit
  if whole.isEmpty || (whole.head? == some '0' && whole.length != 1) then none
  else (fractionPart? rest).bind fun (fraction, rest) =>
    (powerPart? rest).bind fun (power, rest) =>
      (number? negative whole fraction power).map fun n => (n, rest)

def hexDigit? (c : Char) : Option Nat :=
  if '0' ≤ c ∧ c ≤ '9' then some (c.toNat - '0'.toNat)
  else if 'a' ≤ c ∧ c ≤ 'f' then some (c.toNat - 'a'.toNat + 10)
  else if 'A' ≤ c ∧ c ≤ 'F' then some (c.toNat - 'A'.toNat + 10)
  else none

def hexValue? (a b c d : Char) : Option Nat := do
  let a ← hexDigit? a
  let b ← hexDigit? b
  let c ← hexDigit? c
  let d ← hexDigit? d
  some (((a * 16 + b) * 16 + c) * 16 + d)

def plainEscape? (c : Char) : Option Char :=
  if c = '"' ∨ c = '\\' ∨ c = '/' then some c
  else if c = 'b' then some '\x08'
  else if c = 'f' then some '\x0c'
  else if c = 'n' then some '\n'
  else if c = 'r' then some '\r'
  else if c = 't' then some '\t'
  else none

/-- The characters of a string up to its closing quote, and what follows it. -/
def stringTail? : List Char → Option (List Char × List Char)
  | [] => none
  | '"' :: rest => some ([], rest)
  | '\\' :: 'u' :: a :: b :: c :: d :: rest =>
    (hexValue? a b c d).bind fun n =>
      if 0xDC00 ≤ n ∧ n < 0xE000 then none
      else if 0xD800 ≤ n ∧ n < 0xDC00 then
        match rest with
        | '\\' :: 'u' :: e :: f :: g :: h :: rest =>
          (hexValue? e f g h).bind fun low =>
            if 0xDC00 ≤ low ∧ low < 0xE000 then
              let point := 0x10000 + (n - 0xD800) * 0x400 + (low - 0xDC00)
              (stringTail? rest).map fun (s, rest) => (Char.ofNat point :: s, rest)
            else none
        | _ => none
      else (stringTail? rest).map fun (s, rest) => (Char.ofNat n :: s, rest)
  | '\\' :: c :: rest =>
    (plainEscape? c).bind fun e => (stringTail? rest).map fun (s, rest) => (e :: s, rest)
  | c :: rest =>
    if c = '\\' ∨ c.toNat < 0x20 then none
    else (stringTail? rest).map fun (s, rest) => (c :: s, rest)

mutual
/-- One value; the first number bounds the steps, the second the nesting still allowed. -/
def value? : Nat → Nat → List Char → Option (Json × List Char)
  | 0, _, _ => none
  | n + 1, depth, cs => match skip cs with
    | 'n' :: 'u' :: 'l' :: 'l' :: rest => some (.null, rest)
    | 't' :: 'r' :: 'u' :: 'e' :: rest => some (.bool true, rest)
    | 'f' :: 'a' :: 'l' :: 's' :: 'e' :: rest => some (.bool false, rest)
    | '"' :: rest => (stringTail? rest).map fun (s, rest) => (.string (String.ofList s), rest)
    | '[' :: rest =>
      if depth = 0 then none
      else match skip rest with
        | ']' :: rest => some (.array [], rest)
        | rest => (elements? n (depth - 1) rest).map fun (xs, rest) => (.array xs, rest)
    | '\x7b' :: rest =>
      if depth = 0 then none
      else match skip rest with
        | '\x7d' :: rest => some (.object [], rest)
        | rest => (members? n (depth - 1) rest).map fun (ms, rest) => (.object ms, rest)
    | rest => (numberToken? rest).map fun (x, rest) => (.number x, rest)

def elements? : Nat → Nat → List Char → Option (List Json × List Char)
  | 0, _, _ => none
  | n + 1, depth, cs => (value? n depth cs).bind fun (x, rest) => match skip rest with
    | ',' :: rest => (elements? n depth rest).map fun (xs, rest) => (x :: xs, rest)
    | ']' :: rest => some ([x], rest)
    | _ => none

def members? : Nat → Nat → List Char → Option (List (String × Json) × List Char)
  | 0, _, _ => none
  | n + 1, depth, cs => match skip cs with
    | '"' :: rest => (stringTail? rest).bind fun (key, rest) => match skip rest with
      | ':' :: rest => (value? n depth rest).bind fun (x, rest) =>
        let member := (String.ofList key, x)
        match skip rest with
        | ',' :: rest => (members? n depth rest).map fun (ms, rest) => (member :: ms, rest)
        | '\x7d' :: rest => some ([member], rest)
        | _ => none
      | _ => none
    | _ => none
end

def greatestNesting : Nat := 127

/-- The value of a text, members of objects as they are written. -/
def readTree? (text : String) : Option Json :=
  let cs := text.toList
  match value? (2 * cs.length + 2) greatestNesting cs with
  | some (v, rest) => if (skip rest).isEmpty then some v else none
  | none => none

def parse? (text : String) : Option Json := (readTree? text).map sorted

end RuleSchema.Json
