import RuleSchema.Binary64.Basic
import RuleSchema.Keyed
/-! JSON values. A number keeps the form it was written in: whole numbers of 64 bits are
exact, every other number is binary64, and the two compare by their exact values. -/
namespace RuleSchema

/-- A whole number between -2^63 and 2^64 - 1. -/
structure Whole where
  value : Int
  inRange : -9223372036854775808 ≤ value ∧ value < 18446744073709551616
  deriving DecidableEq, Repr

def Whole.ofInt? (n : Int) : Option Whole :=
  if h : -9223372036854775808 ≤ n ∧ n < 18446744073709551616 then some ⟨n, h⟩ else none

inductive Number where
  | whole (n : Whole)
  | binary (x : Binary64)
  deriving DecidableEq, Repr

/-- The exact value, as a multiple of 2^-1074. -/
def Number.units : Number → Int
  | .whole n => n.value * Binary64.unitsPerOne
  | .binary x => x.units

/-- The nearest binary64 number. -/
def Number.toBinary64? : Number → Option Binary64
  | .whole n => Binary64.ofInt? n.value
  | .binary x => some x

inductive Json where
  | null
  | bool (value : Bool)
  | number (value : Number)
  | string (value : String)
  | array (elements : List Json)
  | object (members : List (String × Json))
  deriving Repr, Inhabited

namespace Json

mutual
def decideEq : (a b : Json) → Decidable (a = b)
  | .null, .null => .isTrue rfl
  | .bool a, .bool b => decidable_of_iff (a = b) (by simp)
  | .number a, .number b => decidable_of_iff (a = b) (by simp)
  | .string a, .string b => decidable_of_iff (a = b) (by simp)
  | .array xs, .array ys => match decideElements xs ys with
    | .isTrue h => .isTrue (by rw [h])
    | .isFalse h => .isFalse (by simpa)
  | .object xs, .object ys => match decideMembers xs ys with
    | .isTrue h => .isTrue (by rw [h])
    | .isFalse h => .isFalse (by simpa)
  | .null, .bool _ | .null, .number _ | .null, .string _ | .null, .array _ | .null, .object _
  | .bool _, .null | .bool _, .number _ | .bool _, .string _ | .bool _, .array _
  | .bool _, .object _ | .number _, .null | .number _, .bool _ | .number _, .string _
  | .number _, .array _ | .number _, .object _ | .string _, .null | .string _, .bool _
  | .string _, .number _ | .string _, .array _ | .string _, .object _ | .array _, .null
  | .array _, .bool _ | .array _, .number _ | .array _, .string _ | .array _, .object _
  | .object _, .null | .object _, .bool _ | .object _, .number _ | .object _, .string _
  | .object _, .array _ => .isFalse nofun
termination_by structural a => a

def decideElements : (a b : List Json) → Decidable (a = b)
  | [], [] => .isTrue rfl
  | x :: xs, y :: ys => match decideEq x y, decideElements xs ys with
    | .isTrue h, .isTrue t => .isTrue (by rw [h, t])
    | .isFalse h, _ | _, .isFalse h => .isFalse (by simp_all)
  | [], _ :: _ | _ :: _, [] => .isFalse nofun
termination_by structural a => a

def decideMembers : (a b : List (String × Json)) → Decidable (a = b)
  | [], [] => .isTrue rfl
  | (k, x) :: xs, (l, y) :: ys => match decideEq x y, decideMembers xs ys with
    | .isTrue h, .isTrue t =>
      if key : k = l then .isTrue (by rw [h, t, key]) else .isFalse (by simp_all)
    | .isFalse h, _ | _, .isFalse h => .isFalse (by simp_all)
  | [], _ :: _ | _ :: _, [] => .isFalse nofun
termination_by structural a => a
end

instance : DecidableEq Json := decideEq

mutual
/-- Equality of the values meant: numbers by their exact value whatever their form, texts by
their characters, the rest part by part. -/
def same : Json → Json → Bool
  | .null, .null => true
  | .bool a, .bool b => a == b
  | .number a, .number b => a.units == b.units
  | .string a, .string b => a == b
  | .array xs, .array ys => sameElements xs ys
  | .object xs, .object ys => sameMembers xs ys
  | _, _ => false
termination_by structural a => a

def sameElements : List Json → List Json → Bool
  | [], [] => true
  | x :: xs, y :: ys => same x y && sameElements xs ys
  | _, _ => false
termination_by structural a => a

def sameMembers : List (String × Json) → List (String × Json) → Bool
  | [], [] => true
  | (k, x) :: xs, (l, y) :: ys => k == l && same x y && sameMembers xs ys
  | _, _ => false
termination_by structural a => a
end

def get? : Json → String → Option Json
  | .object members, key => Keyed.get? members key
  | _, _ => none

def isObject : Json → Bool
  | .object _ => true
  | _ => false

mutual
/-- Every object in the value has its members in key order, each key once. -/
def Ordered : Json → Prop
  | .array xs => OrderedElements xs
  | .object ms => Keyed.Ordered ms ∧ OrderedMembers ms
  | .null | .bool _ | .number _ | .string _ => True
termination_by structural a => a

def OrderedElements : List Json → Prop
  | [] => True
  | x :: xs => Ordered x ∧ OrderedElements xs
termination_by structural a => a

def OrderedMembers : List (String × Json) → Prop
  | [] => True
  | (_, x) :: ms => Ordered x ∧ OrderedMembers ms
termination_by structural a => a
end

mutual
/-- The value with all members in key order; of members with one key the last counts. -/
def sorted : Json → Json
  | .array xs => .array (sortedElements xs)
  | .object ms => .object (Keyed.ofPairs (sortedMembers ms))
  | .null => .null
  | .bool b => .bool b
  | .number n => .number n
  | .string s => .string s
termination_by structural a => a

def sortedElements : List Json → List Json
  | [] => []
  | x :: xs => sorted x :: sortedElements xs
termination_by structural a => a

def sortedMembers : List (String × Json) → List (String × Json)
  | [] => []
  | (k, x) :: ms => (k, sorted x) :: sortedMembers ms
termination_by structural a => a
end

end Json

end RuleSchema
