import Hydracore.Rules.Metadata

namespace Hydracore.Rules

@[ext] structure RuleGroupMatch where
  required : RuleMatchState
  satisfied : RuleMatchState

namespace RuleGroupMatch

def done (groups : RuleGroupMatch) : Bool := groups.required \ groups.satisfied = ∅

def mergeWith (groups other : RuleGroupMatch) : RuleGroupMatch :=
  ⟨groups.required ∪ other.required, groups.satisfied ∪ other.satisfied⟩

end RuleGroupMatch

variable {κ : Type}

structure DefaultRule (κ : Type) where
  items : List (RuleItem κ)
  sourceAddressItems : List (RuleItem κ)
  sourcePortItems : List (RuleItem κ)
  destinationAddressItems : List (RuleItem κ)
  destinationIPCIDRItems : List (RuleItem κ)
  destinationPortItems : List (RuleItem κ)
  invert : Bool

namespace DefaultRule

/-- `allItems` without the `ruleSetItem`: every constructor appends each item to it and to one other list. -/
def allItems (rule : DefaultRule κ) : List (RuleItem κ) :=
  rule.items ++ rule.sourceAddressItems ++ rule.sourcePortItems ++ rule.destinationAddressItems ++
    rule.destinationIPCIDRItems ++ rule.destinationPortItems

def destinationIPCIDRMatchesSource (rule : DefaultRule κ) (cache : RuleCache) : Bool :=
  cache.ipCIDRMatchSource && !rule.destinationIPCIDRItems.isEmpty

def destinationIPCIDRMatchesDestination (rule : DefaultRule κ) (metadata : Metadata κ) (cache : RuleCache) : Bool :=
  !metadata.ignoreDestinationIPCIDRMatch && !cache.ipCIDRMatchSource && !rule.destinationIPCIDRItems.isEmpty

/-- One `if` of `evaluateGroups`: the group is required, and satisfied if one of the items matches. -/
def require (group : Group) (required matched : Bool) (groups : RuleGroupMatch) : RuleGroupMatch :=
  if required then
    ⟨insert group groups.required, if matched then insert group groups.satisfied else groups.satisfied⟩
  else groups

/-- The groups, and the destination address group deferred while `ip_cidr` conditions wait for the lookup. -/
def evaluateGroups (rule : DefaultRule κ) (metadata : Metadata κ) (cache : RuleCache) : RuleGroupMatch × RuleCache :=
  let anyOf items := matchAnyItem items metadata cache
  let groups := require .sourceAddress (!rule.sourceAddressItems.isEmpty) (anyOf rule.sourceAddressItems) ⟨∅, ∅⟩
  let groups := require .sourceAddress (rule.destinationIPCIDRMatchesSource cache)
    (!(Group.sourceAddress ∈ groups.satisfied) && anyOf rule.destinationIPCIDRItems) groups
  let groups := require .sourcePort (!rule.sourcePortItems.isEmpty) (anyOf rule.sourcePortItems) groups
  let groups := require .destinationAddress (!rule.destinationAddressItems.isEmpty)
    (anyOf rule.destinationAddressItems) groups
  let groups := require .destinationAddress (rule.destinationIPCIDRMatchesDestination metadata cache)
    (!(Group.destinationAddress ∈ groups.satisfied) && anyOf rule.destinationIPCIDRItems) groups
  let groups := require .destinationPort (!rule.destinationPortItems.isEmpty)
    (anyOf rule.destinationPortItems) groups
  let deferred := cache.deferredIPCIDRMatchGroups
  (groups, { cache with
    deferredIPCIDRMatchGroups :=
      if metadata.ignoreDestinationIPCIDRMatch && !cache.ipCIDRMatchSource &&
        !rule.destinationIPCIDRItems.isEmpty && rule.destinationAddressItems.isEmpty
      then insert .destinationAddress deferred else deferred })

def evaluateForMerge (rule : DefaultRule κ) (metadata : Metadata κ) (cache : RuleCache) :
    Option RuleGroupMatch × RuleCache :=
  let (groups, cache) := rule.evaluateGroups metadata cache
  if rule.items.all (·.match metadata cache) then (some groups, cache) else (none, cache)

/-- `matchInner`; `finish` is what comes after the ungrouped items, `ruleSetItem.matchWithOuterGroups` or
`groups.done()`. -/
def matchInner (rule : DefaultRule κ) (metadata : Metadata κ) (cache : RuleCache)
    (finish : RuleGroupMatch → RuleCache → Bool × RuleCache) : Bool × RuleCache :=
  let (groups, cache) := rule.evaluateGroups metadata cache
  if rule.items.all (·.match metadata cache) then
    match finish groups cache with
    | (true, cache) => (true, { cache with
        deferredIPCIDRMatchGroups := cache.deferredIPCIDRMatchGroups \ groups.satisfied })
    | (false, cache) => (false, cache)
  else (false, cache)

def inverted (rule : DefaultRule κ) : Bool × RuleCache → Bool × RuleCache
  | (matched, cache) =>
    if rule.invert then
      if !matched then (true, { cache with deferredIPCIDRMatchGroups := ∅ })
      else (cache.deferredIPCIDRMatchGroups ≠ ∅, cache)
    else (matched, cache)

end DefaultRule

structure RuleSetItem (ρ : Type) where
  setList : List (List ρ)
  ipCidrMatchSource : Bool
  ipCidrAcceptEmpty : Bool

def RuleSetItem.prepareNestedMatch {ρ : Type} (item : RuleSetItem ρ) : RuleCache :=
  ⟨item.ipCidrMatchSource, item.ipCidrAcceptEmpty, ∅⟩

inductive LogicalType where
  | and
  | or
  deriving DecidableEq

/-- Route, DNS and headless rules. `matchResponse` is the tag of a DNS rule with `match_response`, empty
for the response of the last evaluate action. -/
inductive Rule (κ : Type) where
  | default (rule : DefaultRule κ) (ruleSetItem : Option (RuleSetItem (Rule κ))) (matchResponse : Option String)
  | logical (mode : LogicalType) (invert : Bool) (rules : List (Rule κ))

def mergeableRuleIn : List (Rule κ) → Option (DefaultRule κ)
  | [.default rule none none] => if rule.invert then none else some rule
  | _ => none

def Metadata.boundResponse (metadata : Metadata κ) (tag : String) : Option Msg :=
  if tag = "" then metadata.dnsResponse else metadata.namedDNSResponses tag

def Metadata.fromResponse (metadata : Metadata κ) (response : Option Msg) : Metadata κ :=
  { metadata with dnsResponse := response, destinationAddressMatchFromResponse := true }

mutual

def Rule.match : Rule κ → Metadata κ → RuleCache → Bool × RuleCache
  | .default rule ruleSetItem none, metadata, cache => matchDefault rule ruleSetItem metadata cache
  | .default rule ruleSetItem (some tag), metadata, cache =>
    match metadata.boundResponse tag with
    | none => (rule.invert, cache)
    -- the rule is matched against a copy of the metadata, with what is written to it
    | some response => ((matchDefault rule ruleSetItem (metadata.fromResponse response) cache).1, cache)
  | .logical mode invert rules, metadata, cache =>
    let (matched, deferred) := match mode with
      | .and => matchAll metadata rules ∅
      | .or => matchSome metadata rules false ∅
    let result := if invert then !matched || deferred ≠ ∅ else matched
    (result, { cache with
      deferredIPCIDRMatchGroups :=
        if matched then cache.deferredIPCIDRMatchGroups ∪ deferred else cache.deferredIPCIDRMatchGroups })

def matchDefault (rule : DefaultRule κ) : Option (RuleSetItem (Rule κ)) → Metadata κ → RuleCache → Bool × RuleCache
  | none, metadata, cache =>
    if rule.allItems.isEmpty then (true, cache)
    else rule.inverted (rule.matchInner metadata cache fun groups cache => (groups.done, cache))
  | some ⟨setList, ipCidrMatchSource, ipCidrAcceptEmpty⟩, metadata, cache =>
    rule.inverted (rule.matchInner metadata cache fun groups snapshot =>
      matchSets metadata groups ⟨ipCidrMatchSource, ipCidrAcceptEmpty, ∅⟩ snapshot setList false ∅)

/-- The loop of `matchWithOuterGroups`; `nested` is the cache `prepareNestedMatch` leaves. -/
def matchSets (metadata : Metadata κ) (outerGroups : RuleGroupMatch) (nested snapshot : RuleCache) :
    List (List (Rule κ)) → Bool → RuleMatchState → Bool × RuleCache
  | [], matched, deferred =>
    (matched, if matched then
      { snapshot with deferredIPCIDRMatchGroups := snapshot.deferredIPCIDRMatchGroups ∪ deferred } else snapshot)
  | set :: sets, matched, deferred =>
    match mergeableRuleIn set with
    | some branch =>
      match branch.evaluateForMerge metadata nested with
      | (some branchGroups, cache) =>
        let merged := outerGroups.mergeWith branchGroups
        if merged.done then
          let branchDeferred := cache.deferredIPCIDRMatchGroups \ merged.satisfied
          if branchDeferred = ∅ then
            (true, { snapshot with
              deferredIPCIDRMatchGroups := snapshot.deferredIPCIDRMatchGroups \ merged.satisfied })
          else matchSets metadata outerGroups nested snapshot sets true (deferred ∪ branchDeferred)
        else matchSets metadata outerGroups nested snapshot sets matched deferred
      | (none, _) => matchSets metadata outerGroups nested snapshot sets matched deferred
    | none =>
      if outerGroups.done then
        match matchAnyHeadlessRule metadata nested set false ∅ nested with
        | (true, cache) =>
          if cache.deferredIPCIDRMatchGroups = ∅ then (true, snapshot)
          else matchSets metadata outerGroups nested snapshot sets true (deferred ∪ cache.deferredIPCIDRMatchGroups)
        | (false, _) => matchSets metadata outerGroups nested snapshot sets matched deferred
      else matchSets metadata outerGroups nested snapshot sets matched deferred

def matchAnyHeadlessRule (metadata : Metadata κ) (snapshot : RuleCache) :
    List (Rule κ) → Bool → RuleMatchState → RuleCache → Bool × RuleCache
  | [], matched, deferred, _ =>
    (matched, if matched then
      { snapshot with deferredIPCIDRMatchGroups := snapshot.deferredIPCIDRMatchGroups ∪ deferred } else snapshot)
  | rule :: rules, matched, deferred, cache =>
    match Rule.match rule metadata cache.resetRuleMatchCache with
    | (true, cache) =>
      if cache.deferredIPCIDRMatchGroups = ∅ then (true, snapshot)
      else matchAnyHeadlessRule metadata snapshot rules true (deferred ∪ cache.deferredIPCIDRMatchGroups) cache
    | (false, cache) => matchAnyHeadlessRule metadata snapshot rules matched deferred cache

/-- The loop of `abstractLogicalRule.Match` for `and`: the match and the groups left open. -/
def matchAll (metadata : Metadata κ) : List (Rule κ) → RuleMatchState → Bool × RuleMatchState
  | [], deferred => (true, deferred)
  | rule :: rules, deferred =>
    match Rule.match rule metadata .fresh with
    | (true, cache) => matchAll metadata rules (deferred ∪ cache.deferredIPCIDRMatchGroups)
    | (false, _) => (false, ∅)

def matchSome (metadata : Metadata κ) : List (Rule κ) → Bool → RuleMatchState → Bool × RuleMatchState
  | [], matched, deferred => (matched, deferred)
  | rule :: rules, matched, deferred =>
    match Rule.match rule metadata .fresh with
    | (true, cache) =>
      if cache.deferredIPCIDRMatchGroups = ∅ then (true, ∅)
      else matchSome metadata rules true (deferred ∪ cache.deferredIPCIDRMatchGroups)
    | (false, _) => matchSome metadata rules matched deferred

end

def RuleSetItem.matchWithOuterGroups (item : RuleSetItem (Rule κ)) (metadata : Metadata κ) (snapshot : RuleCache)
    (outerGroups : RuleGroupMatch) : Bool × RuleCache :=
  matchSets metadata outerGroups item.prepareNestedMatch snapshot item.setList false ∅

def matchRuleSet (set : List (Rule κ)) (metadata : Metadata κ) (cache : RuleCache) : Bool × RuleCache :=
  matchAnyHeadlessRule metadata cache set false ∅ cache

def RuleSetItem.match (item : RuleSetItem (Rule κ)) (metadata : Metadata κ) (cache : RuleCache) : Bool × RuleCache :=
  (item.setList.any fun set => (matchRuleSet set metadata item.prepareNestedMatch).1, cache)

/-- `LegacyPreMatch` of default and logical DNS rules, with the metadata it leaves. -/
def Rule.legacyPreMatch (rule : Rule κ) (metadata : Metadata κ) (cache : RuleCache) :
    Bool × Metadata κ × RuleCache :=
  match rule with
  | .default _ _ (some _) => (false, metadata, cache)
  | rule =>
    let (matched, cache) := rule.match { metadata with ignoreDestinationIPCIDRMatch := true } cache
    (matched, { metadata with ignoreDestinationIPCIDRMatch := false }, cache)

def Rule.matchAddressLimit (rule : Rule κ) (metadata : Metadata κ) (response : Option Msg) : Bool :=
  match rule with
  | .default rule ruleSetItem _ => (matchDefault rule ruleSetItem (metadata.fromResponse response) .fresh).1
  | rule => (rule.match (metadata.fromResponse response) .fresh).1

end Hydracore.Rules
