import Hydracore.Rules.Matching

namespace Hydracore.Dns

open Rules

structure Question where
  name : String
  qtype : UInt16
  qclass : UInt16

structure Message extends Msg where
  id : UInt16
  response : Bool
  authoritative : Bool
  recursionDesired : Bool
  recursionAvailable : Bool
  question : List Question

def rcodeRefused : ℕ := 5

def dnsRefusedResponse (message : Message) : Message where
  rcode := rcodeRefused
  answer := []
  ns := []
  extra := []
  id := message.id
  response := true
  authoritative := false
  recursionDesired := false
  recursionAvailable := false
  question := message.question.take 1

structure Transport where
  tag : String
  isFakeIP : Bool

inductive DomainStrategy where
  | asIS
  | preferIPv4
  | preferIPv6
  | ipv4Only
  | ipv6Only
  deriving DecidableEq

structure DNSQueryOptions where
  strategy : DomainStrategy
  lookupStrategy : DomainStrategy
  disableCache : Bool
  disableOptimisticCache : Bool
  rewriteTTL : Option UInt32
  timeout : ℤ
  clientSubnet : Option (Addr × ℕ)
  removeClientSubnet : Bool

structure RuleActionDNSRouteOptions where
  disableCache : Bool
  disableOptimisticCache : Bool
  rewriteTTL : Option UInt32
  timeout : ℤ
  clientSubnet : Option (Addr × ℕ)
  removeClientSubnet : Bool

def applyDNSRouteOptions (options : DNSQueryOptions) (routeOptions : RuleActionDNSRouteOptions) : DNSQueryOptions :=
  { options with
    disableCache := routeOptions.disableCache || options.disableCache
    disableOptimisticCache := routeOptions.disableOptimisticCache || options.disableOptimisticCache
    rewriteTTL := routeOptions.rewriteTTL.or options.rewriteTTL
    timeout := if routeOptions.timeout > 0 then routeOptions.timeout else options.timeout
    clientSubnet :=
      if routeOptions.removeClientSubnet then none else routeOptions.clientSubnet.or options.clientSubnet
    removeClientSubnet :=
      if routeOptions.removeClientSubnet then true
      else if routeOptions.clientSubnet.isSome then false else options.removeClientSubnet }

inductive RejectMethod where
  | default
  | drop
  | reply
  deriving DecidableEq

structure RuleActionReject where
  method : RejectMethod
  noDrop : Bool

inductive DNSRuleAction where
  | routeOptions (options : RuleActionDNSRouteOptions)
  | evaluate (server tag : String) (speculative : Bool) (options : RuleActionDNSRouteOptions)
  | respond
  | route (server : String) (speculative : Bool) (options : RuleActionDNSRouteOptions)
  | reject (action : RuleActionReject)
  | predefined (response : Message → Message)

variable {κ : Type}

structure DNSRule (κ : Type) where
  rule : Rule κ
  race : Bool
  action : DNSRuleAction

mutual

def matchResponseTags : Rule κ → List String
  | .default _ _ none => []
  | .default _ _ (some tag) => if tag = "" then [] else [tag]
  | .logical _ _ rules => (matchResponseTagsAll rules).eraseDups

def matchResponseTagsAll : List (Rule κ) → List String
  | [] => []
  | rule :: rules => matchResponseTags rule ++ matchResponseTagsAll rules

end

mutual

def matchResponseAnonymous : Rule κ → Bool
  | .default _ _ matchResponse => matchResponse = some ""
  | .logical _ _ rules => matchResponseAnonymousAny rules

def matchResponseAnonymousAny : List (Rule κ) → Bool
  | [] => false
  | rule :: rules => matchResponseAnonymous rule || matchResponseAnonymousAny rules

end

namespace DNSRule

section

variable (rule : DNSRule κ)

def matchResponseTag : String :=
  match rule.rule with
  | .default _ _ matchResponse => matchResponse.getD ""
  | .logical _ _ _ => ""

def tags : List String := matchResponseTags rule.rule

def anonymous : Bool := matchResponseAnonymous rule.rule

def hasBindings : Bool := !rule.tags.isEmpty || rule.anonymous

def matchWith (metadata : Metadata κ) (response : Option Message) (named : String → Option Message) : Bool :=
  (rule.rule.match { metadata with
    dnsResponse := response.map Message.toMsg
    namedDNSResponses := fun tag => (named tag).map Message.toMsg
    destinationAddressMatchFromResponse := false } .fresh).1

end

end DNSRule

end Hydracore.Dns
