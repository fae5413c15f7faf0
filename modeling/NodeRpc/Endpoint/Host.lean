import NodeRpc.Endpoint.Percent
import NodeRpc.Endpoint.Punycode
import NodeRpc.Json.Printer

/-!
# Hosts

A host is a name, an IPv4 address or an IPv6 address in brackets. For the schemes of network
services a name is folded to lower case and to ASCII, and one whose last part is a number has to be
an IPv4 address; for other schemes a name is taken as it stands.
-/

namespace NodeRpc

/-- Why a text is no URL. -/
inductive UrlError where
  | noScheme
  | emptyHost
  | invalidPort
  | invalidIpv4
  | invalidIpv6
  | invalidDomainCharacter
  | invalidDomainName
  deriving DecidableEq, Inhabited

/-- The text of a URL error. -/
def UrlError.message : UrlError → String
  | .noScheme => "relative URL without a base"
  | .emptyHost => "empty host"
  | .invalidPort => "invalid port number"
  | .invalidIpv4 => "invalid IPv4 address"
  | .invalidIpv6 => "invalid IPv6 address"
  | .invalidDomainCharacter => "invalid domain character"
  | .invalidDomainName => "invalid international domain name"

/-- Splits `cs` at every character of `separators`. -/
def splitAt (separators : List Char) : List Char → List (List Char)
  | [] => [[]]
  | c :: cs =>
    if separators.contains c then [] :: splitAt separators cs
    else
      match splitAt separators cs with
      | part :: parts => (c :: part) :: parts
      | [] => [[c]]

/-- The number with the digits `cs` in base `base`. -/
def numeral? (base : Nat) (cs : List Char) : Option Nat :=
  cs.foldlM (fun n c =>
    match Percent.digitValue? c with
    | some d => if d < base then some (base * n + d) else none
    | none => none) 0

/-- The host part of an authority. -/
inductive Host where
  | name (text : String)
  | ipv4 (address : Nat)
  | ipv6 (pieces : List Nat)
  deriving DecidableEq, Inhabited

namespace Host

/-! ### Numeric addresses -/

/-- A part of an IPv4 address: hexadecimal after `0x`, octal after `0`, else decimal. -/
def ipv4Part? : List Char → Option Nat
  | [] => none
  | '0' :: 'x' :: cs => numeral? 16 cs
  | '0' :: 'X' :: cs => numeral? 16 cs
  | '0' :: c :: cs => numeral? 8 (c :: cs)
  | cs => numeral? 10 cs

/-- The parts of a name, without an empty one at the end. -/
def nameParts (cs : List Char) : List (List Char) :=
  let parts := splitAt ['.'] cs
  if parts.getLast? = some [] then parts.dropLast else parts

/-- Whether the last part of a name is a number, so that the name has to be an address. -/
def endsInNumber (cs : List Char) : Bool :=
  match (nameParts cs).getLast? with
  | some part => (!part.isEmpty && part.all Char.isDigit) || (ipv4Part? part).isSome
  | none => false

/-- The address with the given parts: each but the last gives a byte, the last the rest. -/
def ipv4? (cs : List Char) : Option Nat := do
  let numbers ← (nameParts cs).mapM ipv4Part?
  let last ← numbers.getLast?
  let leading := numbers.dropLast
  if leading.length ≤ 3 ∧ leading.all (· ≤ 255) ∧ last < Nat.pow 256 (4 - leading.length) then
    some (leading.zipIdx.foldl (fun sum p => sum + p.1 * Nat.pow 256 (3 - p.2)) last)
  else none

/-- A group of up to four hexadecimal digits. -/
def ipv6Group? (cs : List Char) : Option Nat :=
  if 1 ≤ cs.length ∧ cs.length ≤ 4 then numeral? 16 cs else none

/-- A decimal byte without leading zeros. -/
def plainByte? (cs : List Char) : Option Nat :=
  match cs with
  | [] => none
  | '0' :: _ :: _ => none
  | cs => (numeral? 10 cs).filter (· ≤ 255)

/-- The groups of a part of an IPv6 address; if `isLast`, four decimal bytes may stand for the last
two groups. -/
def ipv6Groups? (isLast : Bool) : List (List Char) → Option (List Nat)
  | [] => some []
  | [group] =>
    if isLast ∧ group.contains '.' then
      match (splitAt ['.'] group).mapM plainByte? with
      | some [a, b, c, d] => some [256 * a + b, 256 * c + d]
      | _ => none
    else (ipv6Group? group).map ([·])
  | group :: groups => do some ((← ipv6Group? group) :: (← ipv6Groups? isLast groups))

/-- The text before the first `::` and the text after it. -/
def splitGap? : List Char → Option (List Char × List Char)
  | [] => none
  | ':' :: ':' :: cs => some ([], cs)
  | c :: cs => (splitGap? cs).map fun p => (c :: p.1, p.2)

/-- The groups of a text that may be empty. -/
def ipv6Part? (isLast : Bool) (cs : List Char) : Option (List Nat) :=
  if cs.isEmpty then some [] else ipv6Groups? isLast (splitAt [':'] cs)

/-- The eight groups of an IPv6 address; `::` stands for as many zeros as are missing. -/
def ipv6? (cs : List Char) : Option (List Nat) :=
  match splitGap? cs with
  | some (front, back) => do
    let front ← ipv6Part? false front
    let back ← ipv6Part? true back
    let given := front.length + back.length
    if given ≤ 7 then some (front ++ List.replicate (8 - given) 0 ++ back) else none
  | none => (ipv6Groups? true (splitAt [':'] cs)).filter (·.length = 8)

/-! ### Names -/

/-- What no name may contain. -/
def forbidden : List Char :=
  ['\x00', '\t', '\n', '\r', ' ', '#', '/', ':', '<', '>', '?', '@', '[', '\\', ']', '^', '|']

/-- Whether a character may not occur in a folded name. -/
def isForbiddenInFolded (c : Char) : Bool :=
  c.toNat ≤ 32 || c.toNat = 127 || c = '%' || forbidden.contains c

/-- The character that stands for `c` in a folded name, if one does. The cases of ASCII, Latin,
Greek and Cyrillic letters, the full-width forms and the full stops are covered. -/
def folded (c : Char) : List Char :=
  let n := c.toNat
  let moved (m : Nat) := [Char.ofNat m]
  if 65 ≤ n ∧ n ≤ 90 then moved (n + 32)
  else if n < 128 then [c]
  else if n = 0xAD then []
  else if 0xC0 ≤ n ∧ n ≤ 0xDE ∧ n ≠ 0xD7 then moved (n + 32)
  else if 0x100 ≤ n ∧ n ≤ 0x137 ∧ n % 2 = 0 then moved (n + 1)
  else if 0x14A ≤ n ∧ n ≤ 0x177 ∧ n % 2 = 0 then moved (n + 1)
  else if 0x391 ≤ n ∧ n ≤ 0x3AB then moved (n + 32)
  else if 0x410 ≤ n ∧ n ≤ 0x42F then moved (n + 32)
  else if 0x400 ≤ n ∧ n ≤ 0x40F then moved (n + 80)
  else if n = 0x3002 ∨ n = 0xFF0E ∨ n = 0xFF61 then ['.']
  else if 0xFF21 ≤ n ∧ n ≤ 0xFF3A then moved (n - 0xFF21 + 97)
  else if 0xFF01 ≤ n ∧ n ≤ 0xFF5E then moved (n - 0xFF01 + 33)
  else [c]

/-- A label in ASCII. -/
def asciiLabel (label : List Char) : List Char :=
  if label.all (·.toNat < 128) then label else ['x', 'n', '-', '-'] ++ Punycode.encode label

/-- The folded form of a name. -/
def foldName? (name : List Char) : Option (List Char) :=
  let name := name.flatMap folded
  if name.any isForbiddenInFolded then none
  else some (List.intercalate ['.'] ((splitAt ['.'] name).map asciiLabel))

/-! ### Hosts -/

/-- An address in brackets. -/
def bracketed (cs : List Char) : Except UrlError Host :=
  match cs.getLast?, ipv6? cs.dropLast with
  | some ']', some pieces => .ok (.ipv6 pieces)
  | _, _ => .error .invalidIpv6

/-- The host of a network service. -/
def ofService (cs : List Char) : Except UrlError Host :=
  match cs with
  | '[' :: cs => bracketed cs
  | cs =>
    match String.fromUTF8? ⟨(Percent.decode cs).toArray⟩ with
    | none => .error .invalidDomainName
    | some decoded =>
      match foldName? decoded.toList with
      | none => .error .invalidDomainName
      | some [] => .error .emptyHost
      | some cs =>
        if endsInNumber cs then
          match ipv4? cs with
          | some address => .ok (.ipv4 address)
          | none => .error .invalidIpv4
        else .ok (.name (String.ofList cs))

/-- The host of any other scheme. -/
def ofOther (cs : List Char) : Except UrlError Host :=
  match cs with
  | '[' :: cs => bracketed cs
  | cs =>
    if cs.any forbidden.contains then .error .invalidDomainCharacter
    else .ok (.name (String.ofList (Percent.encode [] cs)))

/-- The bytes of an IPv4 address. -/
def ipv4Chars (address : Nat) : List Char :=
  List.intercalate ['.'] ([3, 2, 1, 0].map fun k => Decimal.ofNat (address / Nat.pow 256 k % 256))

/-- The length of the run of zeros at the start. -/
def zeroRun (pieces : List Nat) : Nat := (pieces.takeWhile (· = 0)).length

/-- Where the longest run of at least two zeros starts, and its length; the first of equal ones. -/
def longestRun (pieces : List Nat) : Option (Nat × Nat) :=
  (List.range pieces.length).foldl (fun best k =>
    let run := zeroRun (pieces.drop k)
    if 2 ≤ run ∧ (best.map (·.2)).getD 0 < run then some (k, run) else best) none

/-- Groups in hexadecimal, separated by colons. -/
def groupChars (pieces : List Nat) : List Char :=
  List.intercalate [':'] (pieces.map fun n => Nat.toDigits 16 n)

/-- The groups of an IPv6 address, its longest run of zeros left out. -/
def ipv6Chars (pieces : List Nat) : List Char :=
  match longestRun pieces with
  | some (start, length) =>
    groupChars (pieces.take start) ++ ':' :: ':' :: groupChars (pieces.drop (start + length))
  | none => groupChars pieces

/-- A host as text. -/
def text : Host → String
  | .name text => text
  | .ipv4 address => String.ofList (ipv4Chars address)
  | .ipv6 pieces => String.ofList ('[' :: (ipv6Chars pieces ++ [']']))

/-- Whether the host is the empty name. -/
def isEmpty (h : Host) : Bool := h == .name ""

end Host

end NodeRpc
