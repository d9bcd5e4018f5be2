import Hydracore.Rules.Sets

namespace Hydracore.Rules

open DefaultRule Finset

variable {κ : Type}

def OnlyDestination (cache : RuleCache) : Prop :=
  cache.deferredIPCIDRMatchGroups ⊆ {.destinationAddress}

variable {metadata : Metadata κ} {cache : RuleCache}

section

variable (rule : DefaultRule κ)

theorem DefaultRule.deferral_subset (cache : RuleCache) : rule.deferral metadata cache ⊆ {.destinationAddress} := by
  unfold deferral
  split_ifs <;> simp

theorem DefaultRule.evaluateGroups_onlyDestination (metadata : Metadata κ)
    (h : OnlyDestination cache) : OnlyDestination (rule.evaluateGroups metadata cache).2 := by
  simp only [evaluateGroups]
  split_ifs
  · exact insert_subset (mem_singleton_self _) h
  · exact h

theorem DefaultRule.inverted_onlyDestination {outcome : Bool × RuleCache}
    (h : OnlyDestination outcome.2) : OnlyDestination (rule.inverted outcome).2 := by
  simp only [inverted]
  split_ifs
  · exact empty_subset _
  · exact h
  · exact h

theorem DefaultRule.matchInner_onlyDestination
    {finish : RuleGroupMatch → RuleCache → Bool × RuleCache} (h : OnlyDestination cache)
    (hfinish : ∀ groups cache, OnlyDestination cache → OnlyDestination (finish groups cache).2) :
    OnlyDestination (rule.matchInner metadata cache finish).2 := by
  have hgroups := rule.evaluateGroups_onlyDestination metadata h
  cases hitems : rule.itemsMatch metadata cache with
  | false =>
    rw [matchInner_of_not_items _ _ _ hitems]
    exact hgroups
  | true =>
    rw [matchInner_of_items _ _ _ hitems]
    dsimp only
    split_ifs
    · exact sdiff_subset.trans (hfinish _ _ hgroups)
    · exact hfinish _ _ hgroups

end

variable {rules : List (Rule κ)}

section Loops

variable {snapshot cache : RuleCache} {matched : Bool} {deferred : RuleMatchState}
  (hsnapshot : OnlyDestination snapshot) (hdeferred : deferred ⊆ {.destinationAddress})

include hsnapshot hdeferred

theorem restored_onlyDestination : OnlyDestination (if matched then
    { snapshot with deferredIPCIDRMatchGroups := snapshot.deferredIPCIDRMatchGroups ∪ deferred } else snapshot) := by
  split_ifs
  · exact union_subset hsnapshot hdeferred
  · exact hsnapshot

theorem matchAnyHeadlessRule_onlyDestination
    (hrules : ∀ r ∈ rules, ∀ cache, OnlyDestination cache → OnlyDestination (r.match metadata cache).2) :
    OnlyDestination (matchAnyHeadlessRule metadata snapshot rules matched deferred cache).2 := by
  induction rules generalizing matched deferred cache with
  | nil =>
    exact restored_onlyDestination hsnapshot hdeferred
  | cons rule rules ih =>
    have hrest := fun r hr => hrules r (List.mem_cons_of_mem _ hr)
    have hrule := hrules rule List.mem_cons_self cache.resetRuleMatchCache (empty_subset _)
    rw [matchAnyHeadlessRule]
    rcases houtcome : rule.match metadata cache.resetRuleMatchCache with ⟨_ | _, left⟩
    · exact ih hdeferred hrest
    · rw [houtcome] at hrule
      dsimp only
      split_ifs
      · exact hsnapshot
      · exact ih (union_subset hdeferred hrule) hrest

theorem matchSets_onlyDestination {outer : RuleGroupMatch} {nested : RuleCache} {sets : List (List (Rule κ))}
    (hnested : nested.deferredIPCIDRMatchGroups = ∅)
    (hsets : ∀ set ∈ sets, ∀ r ∈ set, ∀ cache, OnlyDestination cache → OnlyDestination (r.match metadata cache).2) :
    OnlyDestination (matchSets metadata outer nested snapshot sets matched deferred).2 := by
  induction sets generalizing matched deferred with
  | nil =>
    exact restored_onlyDestination hsnapshot hdeferred
  | cons set sets ih =>
    have hrest := fun other hother => hsets other (List.mem_cons_of_mem _ hother)
    have hset : setDeferral metadata outer nested set ⊆ {.destinationAddress} := by
      simp only [setDeferral]
      split
      · exact sdiff_subset.trans (deferral_subset _ _)
      · have hfresh : OnlyDestination nested := by simp [OnlyDestination, hnested]
        exact matchAnyHeadlessRule_onlyDestination hfresh (empty_subset _) (hsets set List.mem_cons_self)
    rw [matchSets_cons _ _ _ _ _ hnested]
    split
    · exact ih hdeferred hrest
    · exact ih (union_subset hdeferred hset) hrest
    · exact sdiff_subset.trans hsnapshot

end Loops

section

variable {deferred : RuleMatchState} (hdeferred : deferred ⊆ {.destinationAddress})
  (hrules : ∀ r ∈ rules, OnlyDestination (r.match metadata .fresh).2)
include hdeferred hrules

theorem matchAll_onlyDestination : (matchAll metadata rules deferred).2 ⊆ {.destinationAddress} := by
  induction rules generalizing deferred with
  | nil =>
    exact hdeferred
  | cons rule rules ih =>
    have hrule := hrules rule List.mem_cons_self
    rw [matchAll]
    rcases houtcome : rule.match metadata .fresh with ⟨_ | _, left⟩
    · exact empty_subset _
    · rw [houtcome] at hrule
      exact ih (union_subset hdeferred hrule) fun r hr => hrules r (List.mem_cons_of_mem _ hr)

theorem matchSome_onlyDestination {matched : Bool} :
    (matchSome metadata rules matched deferred).2 ⊆ {.destinationAddress} := by
  induction rules generalizing matched deferred with
  | nil =>
    exact hdeferred
  | cons rule rules ih =>
    have hrule := hrules rule List.mem_cons_self
    have hrest := fun r hr => hrules r (List.mem_cons_of_mem _ hr)
    rw [matchSome]
    rcases houtcome : rule.match metadata .fresh with ⟨_ | _, left⟩
    · exact ih hdeferred hrest
    · rw [houtcome] at hrule
      dsimp only
      split_ifs
      · exact empty_subset _
      · exact ih (union_subset hdeferred hrule) hrest

end

theorem Rule.match_onlyDestination (r : Rule κ) (h : OnlyDestination cache) :
    OnlyDestination (r.match metadata cache).2 := by
  induction r using Rule.induction generalizing metadata cache with
  | default rule ruleSetItem matchResponse ih =>
    cases matchResponse with
    | some tag =>
      rw [Rule.match]
      split <;> exact h
    | none =>
      rw [Rule.match]
      cases ruleSetItem with
      | none =>
        rw [matchDefault]
        split_ifs
        · exact h
        · exact rule.inverted_onlyDestination (rule.matchInner_onlyDestination h fun _ _ hc => hc)
      | some item =>
        rw [matchDefault_some]
        apply rule.inverted_onlyDestination
        apply rule.matchInner_onlyDestination h
        intro groups snapshot hsnapshot
        exact matchSets_onlyDestination hsnapshot (empty_subset _) rfl
          fun set hset r hr cache hcache => ih item rfl set hset r hr hcache
  | logical mode invert rules ih =>
    have hrules : ∀ r ∈ rules, OnlyDestination (r.match metadata .fresh).2 := fun r hr => ih r hr (empty_subset _)
    cases mode with
    | and =>
      rw [Rule.match]
      dsimp only [OnlyDestination]
      split_ifs
      · exact union_subset h (matchAll_onlyDestination (empty_subset _) hrules)
      · exact h
    | or =>
      rw [Rule.match]
      dsimp only [OnlyDestination]
      split_ifs
      · exact union_subset h (matchSome_onlyDestination (empty_subset _) hrules)
      · exact h

theorem RuleSetItem.matchWithOuterGroups_onlyDestination (item : RuleSetItem (Rule κ)) {snapshot : RuleCache}
    (h : OnlyDestination snapshot) (groups : RuleGroupMatch) :
    OnlyDestination (item.matchWithOuterGroups metadata snapshot groups).2 :=
  matchSets_onlyDestination h (empty_subset _) rfl fun _ _ r _ _ hc => r.match_onlyDestination hc

end Hydracore.Rules
