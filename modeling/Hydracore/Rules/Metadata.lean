import Mathlib.Data.Finset.Lattice.Lemmas
import Mathlib.Data.Finset.SDiff

namespace Hydracore.Rules

inductive Addr where
  | v4 (bits : BitVec 32)
  | v6 (bits : BitVec 128)
  deriving DecidableEq

structure Socksaddr where
  addr : Option Addr
  fqdn : String
  port : UInt16

inductive SVCBValue where
  | ipv4Hint (hint : List (Option Addr))
  | ipv6Hint (hint : List (Option Addr))
  | other

inductive RR where
  | a (addr : Option Addr)
  | aaaa (addr : Option Addr)
  | https (values : List SVCBValue)
  | other (text : String)

structure Msg where
  rcode : ℕ
  answer : List RR
  ns : List RR
  extra : List RR

def rcodeSuccess : ℕ := 0

def SVCBValue.addresses : SVCBValue → List Addr
  | .ipv4Hint hint | .ipv6Hint hint => hint.filterMap id
  | .other => []

def RR.addresses : RR → List Addr
  | .a addr | .aaaa addr => addr.toList
  | .https values => values.flatMap SVCBValue.addresses
  | .other _ => []

def dnsResponseAddresses : Option Msg → List Addr
  | none => []
  | some response => if response.rcode ≠ rcodeSuccess then [] else response.answer.flatMap RR.addresses

/-- The fields of `adapter.InboundContext` that matching a rule reads and never writes. `attributes` stands
for those read by items of `RuleItem.field` and `RuleItem.destination` only. -/
structure Metadata (κ : Type) where
  source : Socksaddr
  destination : Socksaddr
  domain : String
  destinationAddresses : List Addr
  dnsResponse : Option Msg
  namedDNSResponses : String → Option Msg
  destinationAddressMatchFromResponse : Bool
  ignoreDestinationIPCIDRMatch : Bool
  attributes : κ

inductive Group where
  | sourceAddress
  | sourcePort
  | destinationAddress
  | destinationPort
  deriving DecidableEq

abbrev RuleMatchState := Finset Group

/-- The fields of `adapter.InboundContext` that matching a rule writes, `ruleMatchSnapshot` of the source. -/
structure RuleCache where
  ipCIDRMatchSource : Bool
  ipCIDRAcceptEmpty : Bool
  deferredIPCIDRMatchGroups : RuleMatchState

def RuleCache.resetRuleMatchCache (cache : RuleCache) : RuleCache := { cache with deferredIPCIDRMatchGroups := ∅ }

def RuleCache.fresh : RuleCache := ⟨false, false, ∅⟩

variable {κ : Type}

/-- Some kinds of the source share a constructor here. `field`: the items over the fields `attributes`
stands for and over the state of the network manager and the Clash server. `domain`: the domain, keyword,
regex and AdGuard items. `destination`: IP version and the two preferred-by items. `response`: rcode and
records. -/
inductive RuleItem (κ : Type) where
  | field (test : κ → Bool)
  | domain (test : String → Bool)
  | port (isSource : Bool) (test : UInt16 → Bool)
  | destination (test : κ → String → Socksaddr → List Addr → Bool)
  | ipCIDR (isSource : Bool) (ipSet : Addr → Bool)
  | ipIsPrivate (isSource : Bool) (isPublicAddr : Option Addr → Bool)
  | ipAcceptAny
  | response (test : Msg → Bool)

def Metadata.domainHost (metadata : Metadata κ) : String :=
  if metadata.domain ≠ "" then metadata.domain else metadata.destination.fqdn

def matchIPCIDR (ipSet : Addr → Bool) (metadata : Metadata κ) (cache : RuleCache) : Bool :=
  if metadata.destinationAddressMatchFromResponse then
    let addresses := dnsResponseAddresses metadata.dnsResponse
    -- `rule_set_ip_cidr_accept_empty` only applies to a response without addresses
    if addresses.isEmpty then cache.ipCIDRAcceptEmpty else addresses.any ipSet
  else match metadata.destination.addr with
    | some addr => ipSet addr
    | none =>
      if metadata.destinationAddresses.isEmpty then cache.ipCIDRAcceptEmpty
      else metadata.destinationAddresses.any ipSet

def matchIPIsPrivate (isPublicAddr : Option Addr → Bool) (metadata : Metadata κ) : Bool :=
  if metadata.destinationAddressMatchFromResponse then
    (dnsResponseAddresses metadata.dnsResponse).any fun addr => !isPublicAddr (some addr)
  else match metadata.destination.addr with
    | some addr => !isPublicAddr (some addr)
    | none => metadata.destinationAddresses.any fun addr => !isPublicAddr (some addr)

def RuleItem.match : RuleItem κ → Metadata κ → RuleCache → Bool
  | .field test, metadata, _ => test metadata.attributes
  | .domain test, metadata, _ => metadata.domainHost ≠ "" && test metadata.domainHost
  | .port isSource test, metadata, _ =>
    test (if isSource then metadata.source.port else metadata.destination.port)
  | .destination test, metadata, _ =>
    test metadata.attributes metadata.domainHost metadata.destination metadata.destinationAddresses
  | .ipCIDR isSource ipSet, metadata, cache =>
    if isSource || cache.ipCIDRMatchSource then metadata.source.addr.any ipSet
    else matchIPCIDR ipSet metadata cache
  | .ipIsPrivate isSource isPublicAddr, metadata, _ =>
    if isSource then !isPublicAddr metadata.source.addr else matchIPIsPrivate isPublicAddr metadata
  | .ipAcceptAny, metadata, _ =>
    if metadata.destinationAddressMatchFromResponse then !(dnsResponseAddresses metadata.dnsResponse).isEmpty
    else !metadata.destinationAddresses.isEmpty
  | .response test, metadata, _ => metadata.dnsResponse.any test

def matchAnyItem (items : List (RuleItem κ)) (metadata : Metadata κ) (cache : RuleCache) : Bool :=
  items.any fun item => item.match metadata cache

end Hydracore.Rules
