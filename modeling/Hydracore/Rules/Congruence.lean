import Hydracore.Rules.Headless

namespace Hydracore.Rules

open DefaultRule List

variable {κ : Type} {metadata other : Metadata κ} {rule : DefaultRule κ} {cache : RuleCache}

section Default

variable (hignore : metadata.ignoreDestinationIPCIDRMatch = other.ignoreDestinationIPCIDRMatch)
  (hitems : ∀ item ∈ rule.allItems, item.match metadata cache = item.match other cache)

include hitems

theorem DefaultRule.itemsMatch_congr : rule.itemsMatch metadata cache = rule.itemsMatch other cache := by
  apply Bool.eq_iff_iff.mpr
  simp only [itemsMatch, all_eq_true]
  apply forall₂_congr
  intro item hitem
  rw [hitems item (by simp [allItems, hitem])]

include hignore

theorem DefaultRule.evaluateGroups_congr :
    rule.evaluateGroups metadata cache = rule.evaluateGroups other cache := by
  have hany : ∀ items : List (RuleItem κ), (∀ item ∈ items, item ∈ rule.allItems) →
      matchAnyItem items metadata cache = matchAnyItem items other cache :=
    fun items hsub => matchAnyItem_congr fun item hitem => hitems item (hsub item hitem)
  have hsource := hany rule.sourceAddressItems fun item hitem => by simp [allItems, hitem]
  have hsourcePort := hany rule.sourcePortItems fun item hitem => by simp [allItems, hitem]
  have haddress := hany rule.destinationAddressItems fun item hitem => by simp [allItems, hitem]
  have hip := hany rule.destinationIPCIDRItems fun item hitem => by simp [allItems, hitem]
  have hport := hany rule.destinationPortItems fun item hitem => by simp [allItems, hitem]
  simp only [evaluateGroups, destinationIPCIDRMatchesDestination, hignore, hsource, hsourcePort, haddress, hip, hport]

theorem DefaultRule.matchInner_congr {finish finish' : RuleGroupMatch → RuleCache → Bool × RuleCache}
    (hfinish : ∀ groups cache, finish groups cache = finish' groups cache) :
    rule.matchInner metadata cache finish = rule.matchInner other cache finish' := by
  obtain rfl : finish = finish' := funext₂ hfinish
  cases h : rule.itemsMatch metadata cache with
  | false =>
    rw [matchInner_of_not_items _ _ _ h, matchInner_of_not_items _ _ _ (itemsMatch_congr hitems ▸ h),
      evaluateGroups_congr hignore hitems]
  | true =>
    rw [matchInner_of_items _ _ _ h, matchInner_of_items _ _ _ (itemsMatch_congr hitems ▸ h),
      evaluateGroups_congr hignore hitems]

theorem matchDefault_none_congr : matchDefault rule none metadata cache = matchDefault rule none other cache := by
  rw [matchDefault, matchDefault, matchInner_congr hignore hitems fun _ _ => rfl]

end Default

section Rules

variable {rules : List (Rule κ)}

section

variable (h : ∀ r ∈ rules, r.match metadata .fresh = r.match other .fresh)
include h

theorem matchAll_congr (deferred : RuleMatchState) :
    matchAll metadata rules deferred = matchAll other rules deferred := by
  induction rules generalizing deferred with
  | nil => rw [matchAll, matchAll]
  | cons rule rules ih =>
    rw [matchAll, matchAll, h rule mem_cons_self]
    simp only [ih fun r hr => h r (mem_cons_of_mem _ hr)]

theorem matchSome_congr (matched : Bool) (deferred : RuleMatchState) :
    matchSome metadata rules matched deferred = matchSome other rules matched deferred := by
  induction rules generalizing matched deferred with
  | nil => rw [matchSome, matchSome]
  | cons rule rules ih =>
    rw [matchSome, matchSome, h rule mem_cons_self]
    simp only [ih fun r hr => h r (mem_cons_of_mem _ hr)]

theorem Rule.match_logical_congr {mode : LogicalType} {invert : Bool} :
    (Rule.logical mode invert rules).match metadata cache = (Rule.logical mode invert rules).match other cache := by
  cases mode with
  | and => simp only [Rule.match, matchAll_congr h]
  | or => simp only [Rule.match, matchSome_congr h]

end

theorem matchAnyHeadlessRule_congr {snapshot cache : RuleCache} {matched : Bool} {deferred : RuleMatchState}
    (h : ∀ r ∈ rules, ∀ left : RuleCache, left.flags = cache.flags → r.match metadata left = r.match other left) :
    matchAnyHeadlessRule metadata snapshot rules matched deferred cache =
      matchAnyHeadlessRule other snapshot rules matched deferred cache := by
  induction rules generalizing matched deferred cache with
  | nil => rw [matchAnyHeadlessRule, matchAnyHeadlessRule]
  | cons rule rules ih =>
    have hflags := rule.match_flags other cache.resetRuleMatchCache
    rw [matchAnyHeadlessRule, matchAnyHeadlessRule, h rule mem_cons_self cache.resetRuleMatchCache rfl]
    rcases houtcome : rule.match other cache.resetRuleMatchCache with ⟨_ | _, left⟩
    -- the cache the first rule leaves keeps the flags
    all_goals
      rw [houtcome] at hflags
      have hrest := fun r hr past (hpast : past.flags = left.flags) =>
        h r (mem_cons_of_mem _ hr) past (hpast.trans hflags)
      simp only [ih hrest]

end Rules

structure SameSight (metadata other : Metadata κ) : Prop where
  ignore : metadata.ignoreDestinationIPCIDRMatch = other.ignoreDestinationIPCIDRMatch
  items : ∀ item : RuleItem κ, item.kind ≠ .response → ∀ cache, item.match metadata cache = item.match other cache

namespace SameSight

theorem headless_of_mergeable {set : List (Rule κ)} {branch : DefaultRule κ} (hset : ∀ r ∈ set, r.Headless)
    (hbranch : mergeableRuleIn set = some branch) : branch.Headless := by
  obtain ⟨rfl, -⟩ := mergeableRuleIn_eq_some.mp hbranch
  cases hset _ mem_cons_self with
  | default built => exact built

variable (h : SameSight metadata other)

include h

theorem headless_items (hrule : rule.Headless) (cache : RuleCache) :
    ∀ item ∈ rule.allItems, item.match metadata cache = item.match other cache := by
  intro item hitem
  apply h.items
  simp only [allItems, mem_append] at hitem
  obtain ((((hitem | hitem) | hitem) | hitem) | hitem) | hitem := hitem
  · simp [hrule.items item hitem]
  · simp [hrule.sourceAddress item hitem]
  · simp [hrule.sourcePort item hitem]
  · simp [hrule.destinationAddress item hitem]
  · simp [hrule.destinationIPCIDR item hitem]
  · simp [hrule.destinationPort item hitem]

theorem match_headless {r : Rule κ} (hr : r.Headless) (cache : RuleCache) :
    r.match metadata cache = r.match other cache := by
  induction hr generalizing cache with
  | default built =>
    exact matchDefault_none_congr h.ignore (h.headless_items built cache)
  | logical built ih => exact Rule.match_logical_congr fun r hr => ih r hr .fresh

theorem evaluateForMerge (hrule : rule.Headless) (cache : RuleCache) :
    rule.evaluateForMerge metadata cache = rule.evaluateForMerge other cache := by
  have hitems := h.headless_items hrule cache
  rw [evaluateForMerge_eq, evaluateForMerge_eq, itemsMatch_congr hitems, evaluateGroups_congr h.ignore hitems]

theorem matchSets {sets : List (List (Rule κ))} (hsets : ∀ set ∈ sets, ∀ r ∈ set, r.Headless)
    (outer : RuleGroupMatch) (nested snapshot : RuleCache) (matched : Bool) (deferred : RuleMatchState) :
    matchSets metadata outer nested snapshot sets matched deferred =
      Rules.matchSets other outer nested snapshot sets matched deferred := by
  induction sets generalizing matched deferred with
  | nil => rw [Rules.matchSets, Rules.matchSets]
  | cons set sets ih =>
    have hset := hsets set mem_cons_self
    have hrest := ih fun s hs => hsets s (mem_cons_of_mem _ hs)
    rw [Rules.matchSets, Rules.matchSets]
    cases hbranch : mergeableRuleIn set with
    | some branch => simp only [h.evaluateForMerge (headless_of_mergeable hset hbranch), hrest]
    | none =>
      simp only [matchAnyHeadlessRule_congr fun r hr left _ => h.match_headless (hset r hr) left, hrest]

theorem matchDefault {ruleSetItem : Option (RuleSetItem (Rule κ))}
    (hsets : ∀ item, ruleSetItem = some item → ∀ set ∈ item.setList, ∀ r ∈ set, r.Headless)
    (hitems : ∀ item ∈ rule.allItems, item.match metadata cache = item.match other cache) :
    matchDefault rule ruleSetItem metadata cache = Rules.matchDefault rule ruleSetItem other cache := by
  cases ruleSetItem with
  | none => exact matchDefault_none_congr h.ignore hitems
  | some item =>
    rw [matchDefault_some, matchDefault_some]
    congr 1
    apply matchInner_congr h.ignore hitems
    exact fun groups snapshot => h.matchSets (hsets item rfl) groups item.prepareNestedMatch snapshot false ∅

end SameSight

end Hydracore.Rules
