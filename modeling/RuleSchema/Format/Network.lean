import RuleSchema.Binary64.Numeral
import RuleSchema.Text.Separated
/-! Names and addresses of hosts, and mail addresses. -/
namespace RuleSchema.Format

def isHexadecimal (c : Char) : Bool :=
  c.isDigit || ('a' ≤ c && c ≤ 'f') || ('A' ≤ c && c ≤ 'F')

/-- Letters, digits and inner hyphens, at most 63. -/
def isHostLabel (cs : List Char) : Bool :=
  !cs.isEmpty && cs.length ≤ 63 && cs.all (fun c => c.isAlphanum || c = '-') &&
    cs.head? != some '-' && cs.getLast? != some '-'

def isHostnameChars (cs : List Char) : Bool :=
  cs.length ≤ 253 && (Text.fieldChars '.' cs).all isHostLabel

def isHostname (s : String) : Bool := isHostnameChars s.toList

/-- A number up to 255 without a leading zero. -/
def isOctet (cs : List Char) : Bool :=
  !cs.isEmpty && cs.length ≤ 3 && cs.all Char.isDigit && digitsValue cs ≤ 255 &&
    !(cs.head? == some '0' && cs.length != 1)

def isIpv4Chars (cs : List Char) : Bool :=
  let octets := Text.fieldChars '.' cs
  octets.length == 4 && octets.all isOctet

def isIpv4 (s : String) : Bool := isIpv4Chars s.toList

def isHexGroup (cs : List Char) : Bool :=
  !cs.isEmpty && cs.length ≤ 4 && cs.all isHexadecimal

/-- How many groups of sixteen bits a run of groups has, if it is one. An address with dots
may end the whole and counts for two. -/
def groupCount? (mayEndDotted : Bool) (cs : List Char) : Option Nat :=
  if cs.isEmpty then some 0
  else
    let groups := Text.fieldChars ':' cs
    let last := groups.getLast?.getD []
    if groups.all isHexGroup then some groups.length
    else if mayEndDotted && groups.dropLast.all isHexGroup && isIpv4Chars last then
      some (groups.length + 1)
    else none

/-- The text before and after the first double colon. -/
def aroundGap? : List Char → Option (List Char × List Char)
  | ':' :: ':' :: cs => some ([], cs)
  | c :: cs => (aroundGap? cs).map fun (before, after) => (c :: before, after)
  | [] => none

/-- Eight groups, or fewer around one double colon. -/
def isIpv6Chars (cs : List Char) : Bool :=
  match aroundGap? cs with
  | none => groupCount? true cs == some 8
  | some (before, after) => match groupCount? false before, groupCount? true after with
    | some m, some n => m + n ≤ 7
    | _, _ => false

def isIpv6 (s : String) : Bool := isIpv6Chars s.toList

def isAtomChar (c : Char) : Bool :=
  c.isAlphanum || "!#$%&'*+-/=?^_\x60\x7b|\x7d~".toList.contains c || 0x80 ≤ c.toNat

/-- What may stand between quotes, where a backslash may hide any visible character. -/
def isQuotedContent : List Char → Bool
  | [] => true
  | ['\\'] => false
  | '\\' :: c :: cs => 0x21 ≤ c.toNat && c.toNat ≤ 0x7E && isQuotedContent cs
  | c :: cs => c != '"' && (c = '\t' || 0x20 ≤ c.toNat) && c.toNat != 0x7F && isQuotedContent cs

/-- A text of at least one character in quotes. -/
def isQuotedMailbox (cs : List Char) : Bool :=
  2 < cs.length && cs.head? == some '"' && cs.getLast? == some '"' &&
    isQuotedContent cs.tail.dropLast

/-- Atoms between dots, or a text in quotes; at most 64 bytes. -/
def isMailbox (cs : List Char) : Bool :=
  (String.ofList cs).utf8ByteSize ≤ 64 && (isQuotedMailbox cs ||
    (Text.fieldChars '.' cs).all fun atom => !atom.isEmpty && atom.all isAtomChar)

def isMailDomain (cs : List Char) : Bool :=
  match cs with
  | '[' :: rest =>
    rest.getLast? == some ']' &&
      (let literal := rest.dropLast
       if "IPv6:".toList.isPrefixOf literal then isIpv6Chars (literal.drop 5)
       else isIpv4Chars literal)
  | _ => isHostnameChars cs

/-- A mailbox and a domain around the last at sign. -/
def isEmail (s : String) : Bool :=
  let cs := s.toList.reverse
  let domain := (cs.takeWhile (· != '@')).reverse
  match cs.dropWhile (· != '@') with
  | _ :: mailbox => isMailbox mailbox.reverse && isMailDomain domain
  | [] => false

end RuleSchema.Format
