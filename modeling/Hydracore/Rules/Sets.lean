import Hydracore.Rules.Verdict

namespace Hydracore.Rules

open Systems DefaultRule Kleene

variable {κ : Type}

section Sets

variable (metadata : Metadata κ) (outer : RuleGroupMatch) (nested : RuleCache)

def mergedGroups (branch : DefaultRule κ) : RuleGroupMatch :=
  outer.mergeWith (branch.evaluateGroups metadata nested).1

def setVerdict (set : List (Rule κ)) : Kleene :=
  match mergeableRuleIn set with
  | some branch =>
    if branch.itemsMatch metadata nested && (mergedGroups metadata outer nested branch).done then
      standing true (branch.deferral metadata nested \ (mergedGroups metadata outer nested branch).satisfied)
    else .no
  | none => if outer.done then verdict (matchRuleSet set metadata nested) else .no

def setDeferral (set : List (Rule κ)) : RuleMatchState :=
  match mergeableRuleIn set with
  | some branch => branch.deferral metadata nested \ (mergedGroups metadata outer nested branch).satisfied
  | none => (matchRuleSet set metadata nested).2.deferredIPCIDRMatchGroups

def setSatisfied (set : List (Rule κ)) : RuleMatchState :=
  match mergeableRuleIn set with
  | some branch => (mergedGroups metadata outer nested branch).satisfied
  | none => ∅

variable {metadata outer nested} {deferred : RuleMatchState}

theorem standing_eq_unknown {matched : Bool} (h : standing matched deferred = .unknown) : deferred ≠ ∅ := by
  rintro rfl
  cases matched <;> simp at h

theorem setDeferral_ne_empty {set : List (Rule κ)} (h : setVerdict metadata outer nested set = .unknown) :
    setDeferral metadata outer nested set ≠ ∅ := by
  simp only [setVerdict] at h
  simp only [setDeferral]
  cases hset : mergeableRuleIn set with
  | some branch | none =>
    simp only [hset] at h ⊢
    split_ifs at h
    exact standing_eq_unknown h

theorem matchSets_cons (snapshot : RuleCache) (set : List (Rule κ)) (sets : List (List (Rule κ))) (matched : Bool)
    (deferred : RuleMatchState) (hnested : nested.deferredIPCIDRMatchGroups = ∅) :
    matchSets metadata outer nested snapshot (set :: sets) matched deferred =
      match setVerdict metadata outer nested set with
      | .no => matchSets metadata outer nested snapshot sets matched deferred
      | .unknown =>
        matchSets metadata outer nested snapshot sets true (deferred ∪ setDeferral metadata outer nested set)
      | .yes => (true, { snapshot with
          deferredIPCIDRMatchGroups :=
            snapshot.deferredIPCIDRMatchGroups \ setSatisfied metadata outer nested set }) := by
  rw [matchSets, setVerdict, setDeferral, setSatisfied]
  cases hset : mergeableRuleIn set with
  | some branch =>
    have hdeferral := branch.evaluateGroups_deferred metadata hnested
    cases hitems : branch.itemsMatch metadata nested with
    | false => simp [evaluateForMerge_eq, hitems]
    | true =>
      simp only [evaluateForMerge_eq, hitems, hdeferral, mergedGroups, if_true, Bool.true_and]
      split_ifs with hdone hopen
      · simp [hopen]
      · simp [standing_open hopen]
      · rfl
  | none =>
    cases hdone : outer.done with
    | false => rfl
    | true =>
      simp only [if_true, matchRuleSet, verdict]
      rcases hset : matchAnyHeadlessRule metadata nested set false ∅ nested with ⟨_ | _, cache⟩
      · rfl
      · dsimp only
        split_ifs with hopen
        · simp [hopen]
        · simp [standing_open hopen]

section

variable (hnested : nested.deferredIPCIDRMatchGroups = ∅)
include hnested

theorem matchSets_flags (snapshot : RuleCache)
    (sets : List (List (Rule κ))) (matched : Bool) (deferred : RuleMatchState) :
    (matchSets metadata outer nested snapshot sets matched deferred).2.flags = snapshot.flags := by
  induction sets generalizing matched deferred with
  | nil =>
    cases matched <;> rfl
  | cons set sets ih =>
    rw [matchSets_cons _ _ _ _ _ hnested]
    split
    · exact ih _ _
    · exact ih _ _
    · rfl

variable {sets : List (List (Rule κ))} {snapshot : RuleCache}

theorem verdict_matchSets
    (hsnapshot : snapshot.deferredIPCIDRMatchGroups = ∅) {matched : Bool} (hdeferred : matched = true → deferred ≠ ∅) :
    verdict (matchSets metadata outer nested snapshot sets matched deferred) =
      any (standing matched deferred :: sets.map (setVerdict metadata outer nested)) := by
  induction sets generalizing matched deferred with
  | nil =>
    rw [matchSets, verdict]
    cases matched with
    | false => rfl
    | true => simp [hsnapshot, standing_open (hdeferred rfl), any]
  | cons set sets ih =>
    rw [matchSets_cons _ _ _ _ _ hnested, List.map_cons]
    cases hset : setVerdict metadata outer nested set with
    | no =>
      rw [any_skip]
      exact ih hdeferred
    | unknown =>
      have hopen := union_ne_empty deferred (setDeferral_ne_empty hset)
      rw [ih (fun _ => hopen), standing_open hopen, any_note (standing_ne_yes hdeferred)]
    | yes => simp [verdict, hsnapshot, any_stop]

theorem matchSets_fst (snapshot : RuleCache)
    (sets : List (List (Rule κ))) (matched : Bool) (deferred : RuleMatchState) :
    (matchSets metadata outer nested snapshot sets matched deferred).1 = true ↔
      matched = true ∨ ∃ set ∈ sets, setVerdict metadata outer nested set ≠ .no := by
  induction sets generalizing matched deferred with
  | nil => simp [matchSets]
  | cons set sets ih =>
    rw [matchSets_cons _ _ _ _ _ hnested]
    cases hset : setVerdict metadata outer nested set <;> simp [hset, ih]

theorem mem_deferred_matchSets {group : Group} (hgroup : group ∈ snapshot.deferredIPCIDRMatchGroups)
    (hsets : ∀ set ∈ sets, group ∉ setSatisfied metadata outer nested set) (matched : Bool)
    (deferred : RuleMatchState) :
    group ∈ (matchSets metadata outer nested snapshot sets matched deferred).2.deferredIPCIDRMatchGroups := by
  induction sets generalizing matched deferred with
  | nil =>
    rw [matchSets]
    cases matched <;> simp [hgroup]
  | cons set sets ih =>
    have hrest := fun other hother => hsets other (List.mem_cons_of_mem _ hother)
    rw [matchSets_cons _ _ _ _ _ hnested]
    split
    · exact ih hrest _ _
    · exact ih hrest _ _
    · simp [hgroup, hsets set List.mem_cons_self]

end

end Sets

theorem matchDefault_some (rule : DefaultRule κ) (item : RuleSetItem (Rule κ)) (metadata : Metadata κ)
    (cache : RuleCache) : matchDefault rule (some item) metadata cache =
      rule.inverted (rule.matchInner metadata cache fun groups snapshot =>
        item.matchWithOuterGroups metadata snapshot groups) := by
  obtain ⟨setList, source, empty⟩ := item
  rfl

theorem matchDefault_flags (rule : DefaultRule κ) (ruleSetItem : Option (RuleSetItem (Rule κ)))
    (metadata : Metadata κ) (cache : RuleCache) :
    (matchDefault rule ruleSetItem metadata cache).2.flags = cache.flags := by
  cases ruleSetItem with
  | none =>
    rw [matchDefault]
    split_ifs
    · rfl
    · rw [inverted_flags, matchInner_flags]
      exact fun _ _ => rfl
  | some item =>
    rw [matchDefault_some, inverted_flags, matchInner_flags]
    exact fun groups snapshot => matchSets_flags rfl _ _ _ _

theorem Rule.match_flags (r : Rule κ) (metadata : Metadata κ) (cache : RuleCache) :
    (r.match metadata cache).2.flags = cache.flags := by
  cases r with
  | default rule ruleSetItem matchResponse =>
    cases matchResponse with
    | none =>
      exact matchDefault_flags _ _ _ _
    | some tag =>
      rw [Rule.match]
      split <;> rfl
  | logical mode invert rules => cases mode <;> simp [Rule.match, RuleCache.flags]

theorem verdict_matchRuleSet (set : List (Rule κ)) (metadata : Metadata κ) {cache : RuleCache}
    (hcache : cache.deferredIPCIDRMatchGroups = ∅) :
    verdict (matchRuleSet set metadata cache) = any (set.map fun r => verdict (r.match metadata cache)) := by
  rw [matchRuleSet, verdict_matchAnyHeadlessRule metadata hcache rfl (by simp)
    fun r _ => r.match_flags metadata cache]
  rfl

namespace DefaultRule

variable (rule : DefaultRule κ) (metadata : Metadata κ) {cache : RuleCache}

theorem verdict_matchInner_of_not_items {finish : RuleGroupMatch → RuleCache → Bool × RuleCache}
    (h : rule.itemsMatch metadata cache = false) : verdict (rule.matchInner metadata cache finish) = .no := by
  rw [matchInner_of_not_items _ _ _ h]
  rfl

theorem verdict_matchInner_done (hcache : cache.deferredIPCIDRMatchGroups = ∅)
    (h : rule.itemsMatch metadata cache = true) :
    verdict (rule.matchInner metadata cache fun groups cache => (groups.done, cache)) =
      standing (rule.evaluateGroups metadata cache).1.done
        (rule.deferral metadata cache \ (rule.evaluateGroups metadata cache).1.satisfied) := by
  rw [matchInner_of_items _ _ _ h]
  dsimp only
  rw [evaluateGroups_deferred _ _ hcache]
  cases (rule.evaluateGroups metadata cache).1.done <;> rfl

theorem verdict_matchInner_sets (item : RuleSetItem (Rule κ)) (h : rule.itemsMatch metadata cache = true) :
    let groups := (rule.evaluateGroups metadata cache).1
    let outcome := item.matchWithOuterGroups metadata (rule.evaluateGroups metadata cache).2 groups
    verdict (rule.matchInner metadata cache fun groups snapshot => item.matchWithOuterGroups metadata snapshot groups) =
      standing outcome.1 (outcome.2.deferredIPCIDRMatchGroups \ groups.satisfied) := by
  rw [matchInner_of_items _ _ _ h]
  dsimp only
  split_ifs with hout
  · rw [hout]
    rfl
  · rw [Bool.eq_false_of_not_eq_true hout, verdict, Bool.eq_false_of_not_eq_true hout]
    rfl

end DefaultRule

end Hydracore.Rules
