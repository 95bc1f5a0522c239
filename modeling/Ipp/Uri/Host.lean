import Ipp.Uri.Address

/-!
# Hosts

The host of a URI in the form in which it is kept. Under a special scheme a host is a domain or an
address; under any other it is a text that is kept as it is, or an IPv6 address between brackets. How
a domain of other characters is written in ASCII is left open.
-/

namespace Ipp.Uri

/-- Why a text is no URI that can be used. -/
inductive Refusal where
  | relative
  | emptyHost
  | badDomain
  | badHostCharacter
  | badPort
  | badIpv4
  | badIpv6
  | noAuthority
  | userInformation
  deriving DecidableEq, Repr

def Refusal.message : Refusal → String
  | relative => "relative URL without a base"
  | emptyHost => "empty host"
  | badDomain => "invalid international domain name"
  | badHostCharacter => "invalid domain character"
  | badPort => "invalid port number"
  | badIpv4 => "invalid IPv4 address"
  | badIpv6 => "invalid IPv6 address"
  | noAuthority => "no authority"
  | userInformation => "user information not allowed"

-- An IPv6 address between brackets; `cs` is what stands behind the first one.
def bracketedHost (cs : List Char) : Except Refusal (List Char) :=
  if cs.getLast? = some ']' then
    match ipv6? cs.dropLast with
    | some pieces => .ok ('[' :: ipv6Text pieces ++ [']'])
    | none => .error .badIpv6
  else .error .badIpv6

-- The bytes that no domain holds.
def forbiddenInDomain (b : UInt8) : Bool :=
  b ≤ 0x20 || 0x7F ≤ b ||
    ("%#/:<>?@[\\]^|".toList.map fun c => UInt8.ofNat c.toNat).contains b

/-- Gives the form in ASCII of a domain, of which the bytes are known. -/
abbrev DomainReader :=
  List UInt8 → Except Refusal (List Char)

-- Takes domains that are ASCII already.
def asciiDomain : DomainReader := fun bytes =>
  if bytes.any forbiddenInDomain then .error .badDomain
  else .ok (bytes.map fun b => (Char.ofNat b.toNat).toLower)

def specialHost (readDomain : DomainReader) : List Char → Except Refusal (List Char)
  | '[' :: cs => bracketedHost cs
  | cs => do
    let domain ← readDomain (unescape cs)
    if domain.isEmpty then .error .emptyHost
    else if endsInNumber domain then
      match ipv4? domain with
      | some n => .ok (ipv4Text n)
      | none => .error .badIpv4
    else .ok domain

-- The characters that no other host holds.
def forbiddenInHost (c : Char) : Bool :=
  "\x00\t\n\r #/:<>?@[\\]^|".toList.contains c

def otherHost : List Char → Except Refusal (List Char)
  | '[' :: cs => bracketedHost cs
  | cs =>
    if cs.any forbiddenInHost then .error .badHostCharacter else .ok (escape isControl cs)

end Ipp.Uri
