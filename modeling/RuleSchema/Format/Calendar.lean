import RuleSchema.Binary64.Numeral
/-! Dates and times of day in the forms `YYYY-MM-DD` and `hh:mm:ss` with a zone. -/
namespace RuleSchema.Format

def isLeapYear (year : Nat) : Bool :=
  (year % 4 == 0 && year % 100 != 0) || year % 400 == 0

def monthLength (year month : Nat) : Nat :=
  if month = 2 then (if isLeapYear year then 29 else 28)
  else if month = 4 ∨ month = 6 ∨ month = 9 ∨ month = 11 then 30
  else if 1 ≤ month ∧ month ≤ 12 then 31
  else 0

/-- A number of exactly `count` digits and what follows it. -/
def digitsThen? (count : Nat) (cs : List Char) : Option (Nat × List Char) :=
  let ds := cs.take count
  if ds.length = count ∧ ds.all Char.isDigit then some (digitsValue ds, cs.drop count) else none

def markThen? (mark : Char) : List Char → Option (List Char)
  | c :: cs => if c = mark then some cs else none
  | [] => none

/-- Year, month and day of a date that is in the calendar. -/
def date? (cs : List Char) : Option (Nat × Nat × Nat) := do
  let (year, cs) ← digitsThen? 4 cs
  let cs ← markThen? '-' cs
  let (month, cs) ← digitsThen? 2 cs
  let cs ← markThen? '-' cs
  let (day, cs) ← digitsThen? 2 cs
  if cs.isEmpty && 1 ≤ day && day ≤ monthLength year month then some (year, month, day) else none

def isDate (s : String) : Bool := (date? s.toList).isSome

/-- Minutes east of Greenwich of a zone. -/
def zone? : List Char → Option Int
  | ['Z'] | ['z'] => some 0
  | sign :: cs => do
    let direction ← if sign = '+' then some 1 else if sign = '-' then some (-1) else none
    let (hours, cs) ← digitsThen? 2 cs
    let cs ← markThen? ':' cs
    let (minutes, cs) ← digitsThen? 2 cs
    if cs.isEmpty && hours ≤ 23 && minutes ≤ 59 then some (direction * (60 * hours + minutes))
    else none
  | [] => none

/-- What follows the seconds and, if they are given, their decimals. -/
def decimalsThen? : List Char → Option (List Char)
  | '.' :: cs => if (cs.takeWhile Char.isDigit).isEmpty then none else some (cs.dropWhile Char.isDigit)
  | cs => some cs

/-- A time of day with its zone. A leap second stands at the end of a Greenwich day. -/
def isTimeChars (cs : List Char) : Bool :=
  let read : Option Bool := do
    let (hour, cs) ← digitsThen? 2 cs
    let cs ← markThen? ':' cs
    let (minute, cs) ← digitsThen? 2 cs
    let cs ← markThen? ':' cs
    let (second, cs) ← digitsThen? 2 cs
    let cs ← decimalsThen? cs
    let zone ← zone? cs
    let greenwich : Int := (60 * hour + minute - zone) % 1440
    some (hour ≤ 23 && minute ≤ 59 &&
      (second ≤ 59 || (second == 60 && greenwich == 1439)))
  read.getD false

def isTime (s : String) : Bool := isTimeChars s.toList

def isDateTime (s : String) : Bool :=
  let cs := s.toList
  let day := cs.takeWhile fun c => !(c = 'T' || c = 't')
  match cs.dropWhile fun c => !(c = 'T' || c = 't') with
  | _ :: time => (date? day).isSome && isTimeChars time
  | [] => false

end RuleSchema.Format
