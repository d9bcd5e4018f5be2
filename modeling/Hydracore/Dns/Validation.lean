import Hydracore.Dns.Rule
import Hydracore.Rules.Headless

/-!
What `NewDNSRule` and `validateLegacyDNSModeDisabledRules` refuse, read off the rules they would build.
-/

namespace Hydracore.Dns

open Rules

variable {κ : Type}

def cause (err message : String) : String := message ++ ": " ++ err

def DNSRuleAction.server : DNSRuleAction → Option String
  | .evaluate server _ _ _ | .route server _ _ => some server
  | _ => none

def DNSRuleAction.dnsRouteOptions : DNSRuleAction → Option RuleActionDNSRouteOptions
  | .routeOptions options | .evaluate _ _ _ options | .route _ _ options => some options
  | _ => none

def DNSRuleAction.isFinal : DNSRuleAction → Bool
  | .respond | .route _ _ _ | .reject _ | .predefined _ => true
  | _ => false

def DNSRuleAction.isReply : DNSRuleAction → Bool
  | .reject action => action.method = .reply
  | _ => false

def DNSRuleAction.speculativeRoute : DNSRuleAction → Bool
  | .route _ speculative _ => speculative
  | _ => false

def validateDNSRuleAction (action : DNSRuleAction) (race : Bool) : Except String Unit :=
  if action.isReply then .error "reject method `reply` is not supported for DNS rules"
  else if action.dnsRouteOptions.any fun options => options.removeClientSubnet && options.clientSubnet.isSome then
    .error "`client_subnet` and `remove_client_subnet` are mutually exclusive"
  else if race && !action.isFinal then .error "`race` requires a final action"
  else if race && action.speculativeRoute then
    .error "`race` and `speculative` cannot be combined on the same rule"
  else .ok ()

/-- `NewDNSRule` for a rule of the list, without the checks of fields that leave no trace in the rule. -/
def newDNSRule (rule : DNSRule κ) : Except String Unit :=
  match validateDNSRuleAction rule.action rule.race with
  | .error err => .error err
  | .ok _ =>
    match rule.rule with
    | .default _ _ _ =>
      if rule.race && !rule.hasBindings then .error "`race` requires `match_response`"
      else if rule.action.server = some "" then .error "missing server field"
      else .ok ()
    | .logical _ _ _ =>
      -- the bindings of the sub-rules are known only once these are built, after the server is checked
      if rule.action.server = some "" then .error "missing server field"
      else if rule.race && !rule.hasBindings then .error "`race` requires `match_response` in sub-rules"
      else .ok ()

def isIPCIDRHeadlessRule (rule : DefaultRule κ) : Bool := !rule.destinationIPCIDRItems.isEmpty

def isNonIPCIDRHeadlessRule (rule : DefaultRule κ) : Bool :=
  !(rule.items ++ rule.sourceAddressItems ++ rule.sourcePortItems ++ rule.destinationAddressItems ++
    rule.destinationPortItems).isEmpty

mutual

def headlessRuleHas (cond : DefaultRule κ → Bool) : Rule κ → Bool
  | .default rule _ _ => cond rule
  | .logical _ _ rules => hasHeadlessRule cond rules

def hasHeadlessRule (cond : DefaultRule κ → Bool) : List (Rule κ) → Bool
  | [] => false
  | rule :: rules => headlessRuleHas cond rule || hasHeadlessRule cond rules

end

def deprecatedMessage (description : String) : String :=
  description ++ " is deprecated in sing-box 1.14.0 and will be removed in sing-box 1.16.0, checkout " ++
    "documentation for migration: " ++
    "https://sing-box.sagernet.org/migration/#migrate-address-filter-fields-to-response-matching"

structure DNSRuleResponseUse where
  needsAnonymous : Bool
  referencedTags : List String

def hasResponseMatchFields (rule : DefaultRule κ) : Bool := rule.allItems.any fun item => item.kind = .response

def validateDefaultRule (rule : DefaultRule κ) (ruleSetItem : Option (RuleSetItem (Rule κ)))
    (matchResponse : Option String) : Except String DNSRuleResponseUse :=
  if (hasResponseMatchFields rule || !rule.destinationIPCIDRItems.isEmpty) && matchResponse.isNone then
    .error ("Response Match Fields (ip_cidr, ip_is_private, ip_accept_any, response_rcode, response_answer, " ++
      "response_ns, response_extra) require match_response to be enabled")
  else if matchResponse.isNone && ruleSetItem.any fun item => item.setList.any fun set =>
      hasHeadlessRule isIPCIDRHeadlessRule set && !hasHeadlessRule isNonIPCIDRHeadlessRule set then
    .error (deprecatedMessage "Legacy Address Filter Fields in DNS rules")
  else if ruleSetItem.any RuleSetItem.ipCidrAcceptEmpty then
    .error (deprecatedMessage "Legacy `rule_set_ip_cidr_accept_empty` DNS rule item")
  else match matchResponse with
    | none => .ok ⟨false, []⟩
    | some tag => .ok (if tag = "" then ⟨true, []⟩ else ⟨false, [tag]⟩)

mutual

def validateTree : Rule κ → Except String DNSRuleResponseUse
  | .default rule ruleSetItem matchResponse => validateDefaultRule rule ruleSetItem matchResponse
  | .logical _ _ rules => validateSubRules rules 0 ⟨false, []⟩

def validateSubRules : List (Rule κ) → ℕ → DNSRuleResponseUse → Except String DNSRuleResponseUse
  | [], _, use => .ok use
  | rule :: rules, i, use =>
    match validateTree rule with
    | .error err => .error (cause err ("sub rule[" ++ toString i ++ "]"))
    | .ok sub =>
      validateSubRules rules (i + 1)
        ⟨use.needsAnonymous || sub.needsAnonymous, use.referencedTags ++ sub.referencedTags⟩

end

def DNSRuleAction.isRespond : DNSRuleAction → Bool
  | .respond => true
  | _ => false

/-- `validateLegacyDNSModeDisabledRuleTree` for a rule of the list; only there can an action stand. -/
def validateRuleTree (rule : DNSRule κ) : Except String DNSRuleResponseUse :=
  match validateTree rule.rule with
  | .error err => .error err
  | .ok use =>
    if rule.action.isRespond then
      match rule.rule with
      | .default _ _ _ => .ok (if rule.matchResponseTag = "" then { use with needsAnonymous := true } else use)
      | .logical _ _ _ =>
        if use.referencedTags.isEmpty then .ok { use with needsAnonymous := true }
        else .error ("respond on a logical rule cannot bind a `match_response` tag from its sub rules; " ++
          "use a non-logical rule")
    else .ok use

def evaluateTag : DNSRuleAction → Option String
  | .evaluate _ tag _ _ => some tag
  | _ => none

def validateRulesFrom : List (DNSRule κ) → ℕ → Bool → List String → Except String Unit
  | [], _, _, _ => .ok ()
  | rule :: rules, i, seenAnonymousEvaluate, definedTags =>
    let place := "dns rule[" ++ toString i ++ "]: "
    match validateRuleTree rule with
    | .error err => .error (cause err ("validate dns rule[" ++ toString i ++ "]"))
    | .ok use =>
      if use.needsAnonymous && !seenAnonymousEvaluate then
        if definedTags.isEmpty then
          .error (place ++ "response-based matching requires a preceding evaluate action")
        else .error (place ++ "response-based matching requires a preceding evaluate action without `tag`; use " ++
          "`match_response` with an evaluate tag to reference a tagged result")
      else match use.referencedTags.find? (· ∉ definedTags) with
        | some tag => .error (place ++ "undefined evaluate tag: " ++ tag)
        | none =>
          match evaluateTag rule.action with
          | none => validateRulesFrom rules (i + 1) seenAnonymousEvaluate definedTags
          | some tag =>
            if tag = "" then validateRulesFrom rules (i + 1) true definedTags
            else if tag ∈ definedTags then .error (place ++ "duplicate evaluate tag: " ++ tag)
            else validateRulesFrom rules (i + 1) seenAnonymousEvaluate (definedTags ++ [tag])

def validateLegacyDNSModeDisabledRules (rules : List (DNSRule κ)) : Except String Unit :=
  validateRulesFrom rules 0 false []

end Hydracore.Dns
