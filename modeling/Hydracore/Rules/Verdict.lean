import Hydracore.Rules.Matching
import Hydracore.Systems.Kleene

namespace Hydracore.Rules

open Systems Kleene List

variable {κ : Type} {groups : RuleGroupMatch}

namespace RuleGroupMatch

theorem done_iff : groups.done = true ↔ groups.required ⊆ groups.satisfied := by
  simp [done, Finset.sdiff_eq_empty_iff_subset]

end RuleGroupMatch

variable {cache : RuleCache} {metadata other : Metadata κ} {rule : DefaultRule κ} {group target : Group}
  {required matched : Bool} {deferred : RuleMatchState}

theorem matchAnyItem_congr {items : List (RuleItem κ)}
    (h : ∀ item ∈ items, item.match metadata cache = item.match other cache) :
    matchAnyItem items metadata cache = matchAnyItem items other cache := by
  induction items with
  | nil => rfl
  | cons item items ih =>
    simp only [matchAnyItem, any_cons, h item mem_cons_self] at ih ⊢
    rw [ih fun other hother => h other (mem_cons_of_mem _ hother)]

namespace DefaultRule

def groupItems (rule : DefaultRule κ) (metadata : Metadata κ) (cache : RuleCache) : Group → List (RuleItem κ)
  | .sourceAddress =>
    rule.sourceAddressItems ++ if cache.ipCIDRMatchSource then rule.destinationIPCIDRItems else []
  | .sourcePort => rule.sourcePortItems
  | .destinationAddress => rule.destinationAddressItems ++
    if !metadata.ignoreDestinationIPCIDRMatch && !cache.ipCIDRMatchSource then rule.destinationIPCIDRItems else []
  | .destinationPort => rule.destinationPortItems

def Constrains (rule : DefaultRule κ) (metadata : Metadata κ) (cache : RuleCache) (group : Group) : Prop :=
  rule.groupItems metadata cache group ≠ []

def Satisfies (rule : DefaultRule κ) (metadata : Metadata κ) (cache : RuleCache) (group : Group) : Prop :=
  matchAnyItem (rule.groupItems metadata cache group) metadata cache = true

@[simp] theorem matchAnyItem_nil (metadata : Metadata κ) (cache : RuleCache) :
    matchAnyItem [] metadata cache = false := rfl

theorem matchAnyItem_append (items others : List (RuleItem κ)) (metadata : Metadata κ) (cache : RuleCache) :
    matchAnyItem (items ++ others) metadata cache =
      (matchAnyItem items metadata cache || matchAnyItem others metadata cache) := by
  simp [matchAnyItem]

@[simp] theorem mem_require_required :
    group ∈ (require target required matched groups).required ↔
      (required = true ∧ group = target) ∨ group ∈ groups.required := by
  cases required <;> simp [require]

@[simp] theorem mem_require_satisfied :
    group ∈ (require target required matched groups).satisfied ↔
      (required = true ∧ matched = true ∧ group = target) ∨ group ∈ groups.satisfied := by
  cases required <;> cases matched <;> simp [require]

theorem mem_required :
    group ∈ (rule.evaluateGroups metadata cache).1.required ↔ rule.Constrains metadata cache group := by
  cases group <;> simp [evaluateGroups, Constrains, groupItems, destinationIPCIDRMatchesSource,
      destinationIPCIDRMatchesDestination]
  all_goals tauto

theorem mem_satisfied :
    group ∈ (rule.evaluateGroups metadata cache).1.satisfied ↔ rule.Satisfies metadata cache group := by
  cases group <;> simp only [evaluateGroups, Satisfies, groupItems, destinationIPCIDRMatchesSource,
      destinationIPCIDRMatchesDestination, mem_require_satisfied, matchAnyItem_append, Bool.and_eq_true]
  all_goals grind [matchAnyItem_nil]

end DefaultRule

theorem Rule.induction {motive : Rule κ → Prop} (default : ∀ rule ruleSetItem matchResponse,
      (∀ item, ruleSetItem = some item → ∀ set ∈ item.setList, ∀ r ∈ set, motive r) →
        motive (.default rule ruleSetItem matchResponse))
    (logical : ∀ mode invert rules, (∀ r ∈ rules, motive r) → motive (.logical mode invert rules))
    (r : Rule κ) : motive r := by
  refine @Rule.rec κ motive
    (fun ruleSetItem => ∀ item, ruleSetItem = some item → ∀ set ∈ item.setList, ∀ r ∈ set, motive r)
    (fun rules => ∀ r ∈ rules, motive r)
    (fun item => ∀ set ∈ item.setList, ∀ r ∈ set, motive r)
    (fun sets => ∀ set ∈ sets, ∀ r ∈ set, motive r)
    default logical ?_ ?_ ?_ ?_ ?_ ?_ ?_ r
  · simp
  · exact fun item hitem other hother => Option.some.inj hother ▸ hitem
  · simp
  · exact fun rule rules hrule hrules => forall_mem_cons.mpr ⟨hrule, hrules⟩
  · exact fun setList source empty hsets => hsets
  · simp
  · exact fun set sets hset hsets => forall_mem_cons.mpr ⟨hset, hsets⟩

def standing (matched : Bool) (deferred : RuleMatchState) : Kleene :=
  if matched then if deferred = ∅ then .yes else .unknown else .no

@[simp] theorem standing_false (deferred : RuleMatchState) : standing false deferred = .no := rfl

@[simp] theorem standing_empty : standing true ∅ = .yes := rfl

theorem standing_open (h : deferred ≠ ∅) : standing true deferred = .unknown := by
  simp [standing, h]

theorem standing_ne_yes (h : matched = true → deferred ≠ ∅) : standing matched deferred ≠ .yes := by
  cases matched with
  | false => simp
  | true => simp [standing_open (h rfl)]

theorem union_ne_empty (deferred : RuleMatchState) {other : RuleMatchState} (h : other ≠ ∅) : deferred ∪ other ≠ ∅ := by
  simp [Finset.union_eq_empty, h]

def verdict (outcome : Bool × RuleCache) : Kleene := standing outcome.1 outcome.2.deferredIPCIDRMatchGroups

namespace RuleCache

def flags (cache : RuleCache) : Bool × Bool := (cache.ipCIDRMatchSource, cache.ipCIDRAcceptEmpty)

theorem resetRuleMatchCache_eq {cache other : RuleCache} (hflags : cache.flags = other.flags)
    (hother : other.deferredIPCIDRMatchGroups = ∅) : cache.resetRuleMatchCache = other := by
  cases cache
  cases other
  simp_all [flags, resetRuleMatchCache]

end RuleCache

theorem RuleItem.match_congr (item : RuleItem κ) (metadata : Metadata κ) {cache other : RuleCache}
    (hflags : cache.flags = other.flags) : item.match metadata cache = item.match metadata other := by
  simp only [RuleCache.flags, Prod.mk.injEq] at hflags
  cases item <;> simp [RuleItem.match, matchIPCIDR, hflags]

namespace DefaultRule

variable (rule : DefaultRule κ) (metadata : Metadata κ) (cache : RuleCache)

def deferral : RuleMatchState :=
  if metadata.ignoreDestinationIPCIDRMatch && !cache.ipCIDRMatchSource &&
    !rule.destinationIPCIDRItems.isEmpty && rule.destinationAddressItems.isEmpty
  then {.destinationAddress} else ∅

theorem evaluateGroups_flags : (rule.evaluateGroups metadata cache).2.flags = cache.flags := rfl

theorem evaluateGroups_deferred {cache : RuleCache} (hcache : cache.deferredIPCIDRMatchGroups = ∅) :
    (rule.evaluateGroups metadata cache).2.deferredIPCIDRMatchGroups = rule.deferral metadata cache := by
  simp only [evaluateGroups, hcache]
  rfl

def itemsMatch : Bool := rule.items.all (·.match metadata cache)

theorem items_all_evaluateGroups :
    rule.items.all (·.match metadata (rule.evaluateGroups metadata cache).2) = rule.itemsMatch metadata cache := by
  simp only [itemsMatch, RuleItem.match_congr _ metadata (rule.evaluateGroups_flags metadata cache)]

theorem evaluateForMerge_eq : rule.evaluateForMerge metadata cache =
    (if rule.itemsMatch metadata cache then some (rule.evaluateGroups metadata cache).1 else none,
      (rule.evaluateGroups metadata cache).2) := by
  rw [← items_all_evaluateGroups]
  simp only [evaluateForMerge]
  split_ifs <;> rfl

variable {finish : RuleGroupMatch → RuleCache → Bool × RuleCache}

theorem matchInner_of_items (h : rule.itemsMatch metadata cache = true) : rule.matchInner metadata cache finish =
    let outcome := finish (rule.evaluateGroups metadata cache).1 (rule.evaluateGroups metadata cache).2
    if outcome.1 then (true, { outcome.2 with
      deferredIPCIDRMatchGroups :=
        outcome.2.deferredIPCIDRMatchGroups \ (rule.evaluateGroups metadata cache).1.satisfied })
    else outcome := by
  rw [← items_all_evaluateGroups] at h
  simp only [matchInner, h, if_true]
  split <;> simp_all

theorem matchInner_of_not_items (h : rule.itemsMatch metadata cache = false) :
    rule.matchInner metadata cache finish = (false, (rule.evaluateGroups metadata cache).2) := by
  rw [← items_all_evaluateGroups] at h
  simp [matchInner, h]

theorem matchInner_flags (hfinish : ∀ groups cache, (finish groups cache).2.flags = cache.flags) :
    (rule.matchInner metadata cache finish).2.flags = cache.flags := by
  cases h : rule.itemsMatch metadata cache with
  | false => rw [matchInner_of_not_items _ _ _ h, evaluateGroups_flags]
  | true =>
    rw [matchInner_of_items _ _ _ h]
    have hout := hfinish (rule.evaluateGroups metadata cache).1 (rule.evaluateGroups metadata cache).2
    dsimp only
    split_ifs <;> exact hout

theorem inverted_flags (outcome : Bool × RuleCache) : (rule.inverted outcome).2.flags = outcome.2.flags := by
  simp only [inverted]
  split_ifs <;> rfl

theorem verdict_inverted (outcome : Bool × RuleCache) :
    verdict (rule.inverted outcome) = (verdict outcome).invertIf rule.invert := by
  obtain ⟨matched, cache⟩ := outcome
  cases hinvert : rule.invert <;> cases matched <;>
    by_cases hdeferred : cache.deferredIPCIDRMatchGroups = ∅ <;>
    simp [inverted, verdict, standing, Kleene.invertIf, Kleene.not, hinvert, hdeferred]

end DefaultRule

section Loops

variable (metadata : Metadata κ) {rules : List (Rule κ)}

theorem verdict_matchAnyHeadlessRule {snapshot cache : RuleCache}
    (hsnapshot : snapshot.deferredIPCIDRMatchGroups = ∅)
    (hflags : cache.flags = snapshot.flags) (hdeferred : matched = true → deferred ≠ ∅)
    (hmatch : ∀ r ∈ rules, (r.match metadata snapshot).2.flags = snapshot.flags) :
    verdict (matchAnyHeadlessRule metadata snapshot rules matched deferred cache) =
      Kleene.any (standing matched deferred :: rules.map fun r => verdict (r.match metadata snapshot)) := by
  induction rules generalizing matched deferred cache with
  | nil =>
    rw [matchAnyHeadlessRule, verdict]
    cases matched with
    | false => rfl
    | true => simp [hsnapshot, standing_open (hdeferred rfl), Kleene.any]
  | cons rule rules ih =>
    have hrest := fun r hr => hmatch r (mem_cons_of_mem _ hr)
    have hrule := hmatch rule mem_cons_self
    rw [matchAnyHeadlessRule, RuleCache.resetRuleMatchCache_eq hflags hsnapshot, map_cons]
    rcases houtcome : rule.match metadata snapshot with ⟨_ | _, left⟩
    · rw [houtcome] at hrule
      dsimp only [verdict]
      rw [standing_false, any_skip]
      exact ih hrule hdeferred hrest
    · rw [houtcome] at hrule
      dsimp only
      split_ifs with hleft
      · simp only [verdict, hleft, hsnapshot, standing_empty, any_stop]
      · have hopen := union_ne_empty deferred hleft
        rw [ih hrule (fun _ => hopen) hrest, verdict, standing_open hleft, standing_open hopen,
          any_note (standing_ne_yes hdeferred)]

theorem standing_matchAll : standing (matchAll metadata rules deferred).1 (matchAll metadata rules deferred).2 =
      Kleene.all (standing true deferred :: rules.map fun r => verdict (r.match metadata .fresh)) := by
  induction rules generalizing deferred with
  | nil =>
    rw [matchAll]
    by_cases h : deferred = ∅
    · simp [h, Kleene.all]
    · simp [standing_open h, Kleene.all]
  | cons rule rules ih =>
    rw [matchAll, map_cons]
    rcases houtcome : rule.match metadata .fresh with ⟨_ | _, left⟩
    · exact (all_stop _ _).symm
    · dsimp only [verdict]
      rw [ih]
      by_cases hleft : left.deferredIPCIDRMatchGroups = ∅
      · rw [hleft, Finset.union_empty, standing_empty, all_skip]
        rfl
      · have hne : standing true deferred ≠ .no := by
          simp only [standing]
          split_ifs <;> simp
        rw [standing_open hleft, standing_open (union_ne_empty deferred hleft), all_note hne]
        rfl

theorem standing_matchSome (hdeferred : matched = true → deferred ≠ ∅) :
    standing (matchSome metadata rules matched deferred).1 (matchSome metadata rules matched deferred).2 =
      Kleene.any (standing matched deferred :: rules.map fun r => verdict (r.match metadata .fresh)) := by
  induction rules generalizing matched deferred with
  | nil =>
    rw [matchSome]
    cases matched with
    | false => rfl
    | true => simp [standing_open (hdeferred rfl), Kleene.any]
  | cons rule rules ih =>
    rw [matchSome, map_cons]
    rcases houtcome : rule.match metadata .fresh with ⟨_ | _, left⟩
    · dsimp only [verdict]
      rw [standing_false, any_skip]
      exact ih hdeferred
    · dsimp only
      split_ifs with hleft
      · simp only [verdict, hleft, standing_empty, any_stop]
      · have hopen := union_ne_empty deferred hleft
        rw [ih (fun _ => hopen), verdict, standing_open hleft, standing_open hopen,
          any_note (standing_ne_yes hdeferred)]

def LogicalType.join : LogicalType → List Kleene → Kleene
  | .and => Kleene.all
  | .or => Kleene.any

theorem verdict_logical (mode : LogicalType) (invert : Bool) (rules : List (Rule κ)) {cache : RuleCache}
    (hcache : cache.deferredIPCIDRMatchGroups = ∅) :
    verdict ((Rule.logical mode invert rules).match metadata cache) =
      (mode.join (rules.map fun r => verdict (r.match metadata .fresh))).invertIf invert := by
  have hinvert : ∀ (matched : Bool) (deferred : RuleMatchState),
      standing (if invert then !matched || deferred ≠ ∅ else matched)
          (if matched then ∅ ∪ deferred else ∅) = (standing matched deferred).invertIf invert := by
    intro matched deferred
    by_cases h : deferred = ∅ <;> cases invert <;> cases matched <;>
      simp [standing, Kleene.invertIf, Kleene.not, h]
  cases mode with
  | and =>
    simp only [Rule.match, verdict, hcache]
    rw [hinvert, standing_matchAll, standing_empty]
    rfl
  | or =>
    simp only [Rule.match, verdict, hcache]
    rw [hinvert, standing_matchSome _ (by simp), standing_false]
    rfl

end Loops

end Hydracore.Rules
