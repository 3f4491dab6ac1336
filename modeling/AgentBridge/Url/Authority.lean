import AgentBridge.Text.Digit
import AgentBridge.Text.Pieces

/-
  AgentBridge.Url.Authority — the authority of an address: user, host and service.

  What stands after the last `@` is a host, and behind a colon there may be the number of a
  service. A host that holds colons itself stands in brackets, and what stands in brackets
  has to be an IPv6 address or an address of a later version: `v`, a version number, a point
  and more.

  An authority must not hold a character whose compatibility form holds a delimiter: a reader
  that normalises the address would see another host. The table lists these characters.

  An IPv6 address has eight groups of sixteen bits, written as one to four hexadecimal digits
  and separated by colons. Once, a double colon may stand for one or more groups of zeros. The
  last two groups may be written as an IPv4 address. A percent sign separates a zone, which
  must not be empty.
-/

namespace AgentBridge

namespace Ipv6

/-- Whether a piece is a number from 0 to 255 without leading zeros. -/
def isOctet (cs : List Char) : Bool :=
  !cs.isEmpty && cs.length ≤ 3 && cs.all Digit.isDigit && (cs == ['0'] || cs.head? != some '0') &&
    Digit.number cs ≤ 255

/-- Whether a piece is an IPv4 address: four numbers separated by points. -/
def isIpv4 (cs : List Char) : Bool :=
  let octets := pieces '.' cs
  octets.length == 4 && octets.all isOctet

/-- Whether a piece is a group: one to four hexadecimal digits. -/
def isGroup (cs : List Char) : Bool :=
  !cs.isEmpty && cs.length ≤ 4 && cs.all fun c => (Hex.value? c).isSome

/-- The number of groups in pieces, the last of which may be an IPv4 address if `tail` says
so and then counts as two. -/
def countGroups? (tail : Bool) : List (List Char) → Option Nat
  | [] => some 0
  | [piece] => if isGroup piece then some 1 else if tail && isIpv4 piece then some 2 else none
  | piece :: rest => if isGroup piece then (countGroups? tail rest).map (1 + ·) else none

/-- The number of groups in a text next to a double colon, where there may be none. -/
def countBeside? (tail : Bool) (cs : List Char) : Option Nat :=
  if cs.isEmpty then some 0 else countGroups? tail (pieces ':' cs)

/-- What stands before and after the first double colon. -/
def cutAtGap? : List Char → Option (List Char × List Char)
  | ':' :: ':' :: rest => some ([], rest)
  | c :: rest => (cutAtGap? rest).map fun (before, after) => (c :: before, after)
  | [] => none

/-- Whether a text is an address without a zone. -/
def isUnscoped (cs : List Char) : Bool :=
  match cutAtGap? cs with
  | none => countGroups? true (pieces ':' cs) == some 8
  | some (before, after) =>
    match countBeside? false before, countBeside? true after with
    | some m, some n => m + n ≤ 7
    | _, _ => false

/-- Whether a text is an address, with a zone or without. -/
def isAddress (cs : List Char) : Bool :=
  match cutAt? '%' cs with
  | none => isUnscoped cs
  | some (address, zone) => isUnscoped address && !zone.isEmpty && !cs.contains '/' && !zone.contains '%'

end Ipv6

/-! ## Authorities -/

inductive AuthorityFault where
  | unbalancedBrackets
  | besideBrackets
  | notAnAddress
  | hiddenDelimiter
  deriving DecidableEq, Repr

namespace Authority

/-- The characters whose compatibility form holds one of `/`, `?`, `#`, `@` and `:`. -/
def hidingDelimiters : List Nat :=
  [0x2047, 0x2048, 0x2049, 0x2100, 0x2101, 0x2105, 0x2106, 0x2A74, 0xFE13, 0xFE16, 0xFE55, 0xFE56,
   0xFE5F, 0xFE6B, 0xFF03, 0xFF0F, 0xFF1A, 0xFF1F, 0xFF20]

/-- Whether the compatibility form of a character holds a delimiter. -/
def hidesDelimiter (c : Char) : Bool := hidingDelimiters.contains c.toNat

/-- The host with its service: what stands after the last `@`. -/
def hostAndService (authority : List Char) : List Char := afterLast '@' authority

/-- The host: what stands in brackets, or before the first colon. -/
def host (authority : List Char) : List Char :=
  match cutAt? '[' (hostAndService authority) with
  | some (_, inside) => (cutAt ']' inside).1
  | none => (cutAt ':' (hostAndService authority)).1

/-- Whether a text is an address of a version after 6. -/
def isLaterAddress (cs : List Char) : Bool :=
  match cs with
  | 'v' :: rest =>
    match cutAt? '.' rest with
    | some (version, address) =>
      !version.isEmpty && version.all (fun c => (Hex.value? c).isSome) && !address.isEmpty
    | none => false
  | _ => false

def isBracketed (cs : List Char) : Bool :=
  if cs.head? = some 'v' then isLaterAddress cs else Ipv6.isAddress cs

/-- Whether nothing stands before the brackets around a host, and after them nothing or a
service. -/
def standsAlone (authority : List Char) : Bool :=
  match cutAt? '[' (hostAndService authority) with
  | some (before, inside) =>
    let after := (cutAt ']' inside).2
    before.isEmpty && (after.isEmpty || after.head? == some ':')
  | none => true

def check (authority : List Char) : Except AuthorityFault Unit :=
  let opened := authority.contains '['
  let closed := authority.contains ']'
  if opened != closed then .error .unbalancedBrackets
  else if opened && !standsAlone authority then .error .besideBrackets
  else if opened && !isBracketed (host authority) then .error .notAnAddress
  else if authority.any hidesDelimiter then .error .hiddenDelimiter
  else .ok ()

end Authority

end AgentBridge
