import Hydracore.Rules.Lookup
import Hydracore.Rules.Deferral

namespace Hydracore.Rules

open Systems DefaultRule Finset

variable {κ : Type}

namespace DefaultRule

def Unmixed (rule : DefaultRule κ) (source : Bool) : Prop :=
  rule.destinationAddressItems = [] ∨ rule.lookupItems source = []

def UnmixedWith (rule branch : DefaultRule κ) (source nested : Bool) : Prop :=
  (rule.destinationAddressItems = [] ∧ branch.destinationAddressItems = []) ∨
    (rule.lookupItems source = [] ∧ branch.lookupItems nested = [])

end DefaultRule

structure Referenced (metadata : Metadata κ) (response : Option Msg) (rule : DefaultRule κ) (cache nested : RuleCache)
    (set : List (Rule κ)) : Prop where
  branch : ∀ branch, IsOnly branch set → branch.Steady nested.ipCIDRMatchSource ∧
    rule.UnmixedWith branch cache.ipCIDRMatchSource nested.ipCIDRMatchSource
  rules : ∀ r ∈ set, ∀ side,
    Kleene.Bounds side (verdict (r.match (asked metadata) nested)) (r.match (answered metadata response) nested).1

variable {branch : DefaultRule κ}

section Rule

variable {metadata : Metadata κ} {response : Option Msg} {rule : DefaultRule κ} {cache nested : RuleCache}
  {set : List (Rule κ)}

theorem setVerdict_of_only {outer : RuleGroupMatch} (h : IsOnly branch set) :
    setVerdict metadata outer nested set =
      if branch.itemsMatch metadata nested && (mergedGroups metadata outer nested branch).done then
        standing true (branch.deferral metadata nested \ (mergedGroups metadata outer nested branch).satisfied)
      else .no := by
  simp only [setVerdict, mergeableRuleIn_eq_some.mpr h]

theorem setVerdict_of_not_only {outer : RuleGroupMatch} (h : ¬∃ branch, IsOnly branch set) :
    setVerdict metadata outer nested set =
      if outer.done then verdict (matchRuleSet set metadata nested) else .no := by
  simp only [setVerdict, mergeableRuleIn_eq_none.mpr h]

theorem standing_true_ne_no (deferred : RuleMatchState) : standing true deferred ≠ .no := by
  simp only [standing]
  split_ifs <;> simp

theorem standing_eq_yes {matched : Bool} {deferred : RuleMatchState} :
    standing matched deferred = .yes ↔ matched = true ∧ deferred = ∅ := by
  cases matched <;> simp [standing]

theorem matchRuleSet_bounds (side : Bool) (hnested : nested.deferredIPCIDRMatchGroups = ∅)
    (h : Referenced metadata response rule cache nested set) :
    Kleene.Bounds side (verdict (matchRuleSet set (asked metadata) nested))
      (set.any fun r => (r.match (answered metadata response) nested).1) := by
  rw [verdict_matchRuleSet set _ hnested]
  exact Kleene.bounds_any fun r hr => h.rules r hr side

variable (hsteady : rule.Steady cache.ipCIDRMatchSource)

include hsteady

theorem done_asked (hunmixed : rule.Unmixed cache.ipCIDRMatchSource)
    (h : (rule.evaluateGroups (answered metadata response) cache).1.done = true) :
    (rule.evaluateGroups (asked metadata) cache).1.done = true := by
  cases hunmixed with
  | inl haddress =>
    rw [evaluateGroups_done] at h ⊢
    intro group hgroup
    by_cases hdestination : group = .destinationAddress
    · rw [hdestination, constrains_destination] at hgroup
      exact absurd haddress hgroup
    · rw [constrains_asked hdestination] at hgroup
      exact (satisfies_asked hsteady hdestination).mpr (h group hgroup)
  | inr hlookup => rwa [evaluateGroups_asked hsteady hlookup]

theorem mergedGroups_done_asked (hbranch : branch.Steady nested.ipCIDRMatchSource)
    (hunmixed : rule.UnmixedWith branch cache.ipCIDRMatchSource nested.ipCIDRMatchSource)
    (h : (mergedGroups (answered metadata response) (rule.evaluateGroups (answered metadata response) cache).1
      nested branch).done = true) :
    (mergedGroups (asked metadata) (rule.evaluateGroups (asked metadata) cache).1 nested branch).done = true := by
  cases hunmixed with
  | inl haddress =>
    rw [mergedGroups_done] at h ⊢
    intro group hgroup
    by_cases hdestination : group = .destinationAddress
    · rw [hdestination, constrains_destination, constrains_destination] at hgroup
      simp [haddress] at hgroup
    · rw [constrains_asked hdestination, constrains_asked hdestination] at hgroup
      rw [satisfies_asked hsteady hdestination, satisfies_asked hbranch hdestination]
      exact h group hgroup
  | inr hlookup =>
    rw [mergedGroups] at h ⊢
    rwa [evaluateGroups_asked hsteady hlookup.1, evaluateGroups_asked hbranch hlookup.2]

theorem setVerdict_asked_ne_no (hnested : nested.deferredIPCIDRMatchGroups = ∅)
    (hunmixed : rule.Unmixed cache.ipCIDRMatchSource) (hset : Referenced metadata response rule cache nested set)
    (h : setVerdict (answered metadata response) (rule.evaluateGroups (answered metadata response) cache).1 nested set
      = .yes) :
    setVerdict (asked metadata) (rule.evaluateGroups (asked metadata) cache).1 nested set ≠ .no := by
  by_cases honly : ∃ branch, IsOnly branch set
  · obtain ⟨branch, honly⟩ := honly
    have hbranch := hset.branch branch honly
    rw [setVerdict_of_only honly] at h ⊢
    split_ifs at h with hmatch
    rw [Bool.and_eq_true] at hmatch
    rw [itemsMatch_asked hbranch.1.settled, hmatch.1, mergedGroups_done_asked hsteady hbranch.1 hbranch.2 hmatch.2]
    exact standing_true_ne_no _
  · rw [setVerdict_of_not_only honly] at h ⊢
    split_ifs at h with hdone
    rw [done_asked hsteady hunmixed hdone, if_pos rfl]
    intro hno
    rw [matchRuleSet_fst rfl set hnested] at h
    have hany := matchRuleSet_bounds false hnested hset hno
    rw [hany] at h
    cases h

theorem setVerdict_answered_eq_yes (hnested : nested.deferredIPCIDRMatchGroups = ∅)
    (hlookup : rule.lookupItems cache.ipCIDRMatchSource = []) (hset : Referenced metadata response rule cache nested set)
    (h : setVerdict (asked metadata) (rule.evaluateGroups (asked metadata) cache).1 nested set = .yes) :
    setVerdict (answered metadata response) (rule.evaluateGroups (answered metadata response) cache).1 nested set
      = .yes := by
  have hgroups : (rule.evaluateGroups (asked metadata) cache).1 =
      (rule.evaluateGroups (answered metadata response) cache).1 := evaluateGroups_asked hsteady hlookup
  by_cases honly : ∃ branch, IsOnly branch set
  · obtain ⟨branch, honly⟩ := honly
    obtain ⟨hbranch, hunmixed⟩ := hset.branch branch honly
    rw [setVerdict_of_only honly] at h ⊢
    split_ifs at h with hmatch
    have hwaits : branch.lookupItems nested.ipCIDRMatchSource = [] := by
      by_contra hwaits
      have haddress := hunmixed.resolve_right fun hnone => hwaits hnone.2
      have hdestination : Group.destinationAddress ∉
          (mergedGroups (asked metadata) (rule.evaluateGroups (asked metadata) cache).1 nested branch).satisfied := by
        rw [mergedGroups, RuleGroupMatch.mergeWith, mem_union, not_or]
        exact ⟨not_mem_satisfied_of_no_address haddress.1, not_mem_satisfied_of_no_address haddress.2⟩
      rw [deferral_asked_of_lookup hwaits haddress.2, standing_eq_yes,
        sdiff_eq_empty_iff_subset, singleton_subset_iff] at h
      exact hdestination h.2
    rw [itemsMatch_asked hbranch.settled, mergedGroups, hgroups, evaluateGroups_asked hbranch hwaits] at hmatch
    rw [mergedGroups, if_pos hmatch, deferral_eq_empty rfl, empty_sdiff, standing_empty]
  · rw [setVerdict_of_not_only honly] at h ⊢
    split_ifs at h with hdone
    rw [← hgroups, if_pos hdone, matchRuleSet_fst rfl set hnested, matchRuleSet_bounds true hnested hset h]
    rfl

end Rule

section Sets

variable {metadata : Metadata κ} {response : Option Msg} {rule : DefaultRule κ} {item : RuleSetItem (Rule κ)}
  {cache : RuleCache}

structure Loses (metadata : Metadata κ) (response : Option Msg) (rule : DefaultRule κ) (item : RuleSetItem (Rule κ))
    (cache : RuleCache) : Prop where
  items : ∀ i ∈ rule.items, i.match (asked metadata) cache = true
  groups : ∀ group, rule.Constrains (asked metadata) cache group → rule.Satisfies (asked metadata) cache group
  domain : ∃ i ∈ rule.destinationAddressItems, i.match (asked metadata) cache = true
  expected : ∃ set ∈ item.setList, (¬∃ branch, IsOnly branch set) ∧
    (matchRuleSet set (asked metadata) item.prepareNestedMatch).1 = true
  missed : ¬∃ set ∈ item.setList, Through rule (answered metadata response) cache item.prepareNestedMatch set

theorem reaches_answered : rule.reaches item (answered metadata response) cache = true ↔
    ∃ set ∈ item.setList, Through rule (answered metadata response) cache item.prepareNestedMatch set := by
  simp only [reaches, List.any_eq_true, decide_eq_true_eq,
    setVerdict_eq_yes (rfl : (answered metadata response).ignoreDestinationIPCIDRMatch = false)
      (rfl : item.prepareNestedMatch.deferredIPCIDRMatchGroups = ∅)]

variable (hcache : cache.deferredIPCIDRMatchGroups = ∅) (hsteady : rule.Steady cache.ipCIDRMatchSource)
  (hunmixed : rule.Unmixed cache.ipCIDRMatchSource)
  (hsets : ∀ set ∈ item.setList, Referenced metadata response rule cache item.prepareNestedMatch set)

include hsteady hunmixed hsets

theorem inner_excluded (h : verdict (rule.matchInner (asked metadata) cache fun groups snapshot =>
      item.matchWithOuterGroups (asked metadata) snapshot groups) = .no) :
    (rule.itemsMatch (answered metadata response) cache && rule.reaches item (answered metadata response) cache) =
      false := by
  cases hitems : rule.itemsMatch (asked metadata) cache with
  | false =>
    rw [← itemsMatch_asked hsteady.settled, hitems]
    rfl
  | true =>
    rw [verdict_matchInner_sets _ _ _ hitems] at h
    apply Bool.eq_false_of_not_eq_true
    intro hpost
    rw [Bool.and_eq_true, reaches, List.any_eq_true] at hpost
    obtain ⟨set, hset, hyes⟩ := hpost.2
    have hne := setVerdict_asked_ne_no hsteady rfl hunmixed (hsets set hset) (of_decide_eq_true hyes)
    have hmatched := (matchSets_fst rfl (rule.evaluateGroups (asked metadata) cache).2 item.setList false ∅).mpr
      (Or.inr ⟨set, hset, hne⟩)
    rw [RuleSetItem.matchWithOuterGroups, hmatched] at h
    exact standing_true_ne_no _ h

omit hsteady hunmixed in
theorem setVerdict_ne_unknown_of_address {set : List (Rule κ)} (hset : set ∈ item.setList)
    (honly : IsOnly branch set) (haddress : rule.destinationAddressItems ≠ []) :
    setVerdict (asked metadata) (rule.evaluateGroups (asked metadata) cache).1 item.prepareNestedMatch set ≠ .unknown := by
  have hwaits := (((hsets set hset).branch branch honly).2.resolve_left fun hnone => haddress hnone.1).2
  rw [setVerdict_of_only honly, deferral_asked_of_no_lookup hwaits, empty_sdiff, standing_empty]
  split_ifs <;> simp

omit hsteady in
theorem destination_deferred (hlookup : rule.lookupItems cache.ipCIDRMatchSource ≠ [])
    (h : (item.matchWithOuterGroups (asked metadata) (rule.evaluateGroups (asked metadata) cache).2
      (rule.evaluateGroups (asked metadata) cache).1).2.deferredIPCIDRMatchGroups ⊆
        (rule.evaluateGroups (asked metadata) cache).1.satisfied) : cache.deferredIPCIDRMatchGroups ≠ ∅ := by
  intro hcache
  have haddress := hunmixed.resolve_right hlookup
  have hsnapshot : Group.destinationAddress ∈
      (rule.evaluateGroups (asked metadata) cache).2.deferredIPCIDRMatchGroups := by
    rw [evaluateGroups_deferred _ _ hcache, deferral_asked_of_lookup hlookup haddress]
    exact mem_singleton_self _
  have hkept : ∀ set ∈ item.setList, Group.destinationAddress ∉ setSatisfied (asked metadata)
      (rule.evaluateGroups (asked metadata) cache).1 item.prepareNestedMatch set := by
    intro set hset
    simp only [setSatisfied]
    cases hmerge : mergeableRuleIn set with
    | none => simp
    | some branch =>
      have hmerged := ((hsets set hset).branch branch (mergeableRuleIn_eq_some.mp hmerge)).2
      have hnone := hmerged.resolve_right fun hnone => hlookup hnone.1
      simp only [mergedGroups, RuleGroupMatch.mergeWith, mem_union, not_or]
      exact ⟨not_mem_satisfied_of_no_address haddress, not_mem_satisfied_of_no_address hnone.2⟩
  exact not_mem_satisfied_of_no_address haddress (h (mem_deferred_matchSets rfl hsnapshot hkept false ∅))

include hcache

theorem inner_certain (h : verdict (rule.matchInner (asked metadata) cache fun groups snapshot =>
      item.matchWithOuterGroups (asked metadata) snapshot groups) = .yes)
    (hkeeps : ¬Loses metadata response rule item cache) :
    (rule.itemsMatch (answered metadata response) cache && rule.reaches item (answered metadata response) cache) =
      true := by
  cases hitems : rule.itemsMatch (asked metadata) cache with
  | false =>
    rw [verdict_matchInner_of_not_items _ _ hitems] at h
    cases h
  | true =>
    rw [verdict_matchInner_sets _ _ _ hitems] at h
    rw [← itemsMatch_asked hsteady.settled, hitems, Bool.true_and]
    obtain ⟨hmatched, hclosed⟩ := standing_eq_yes.mp h
    rw [sdiff_eq_empty_iff_subset] at hclosed
    have hlookup : rule.lookupItems cache.ipCIDRMatchSource = [] := by
      by_contra hlookup
      exact destination_deferred hunmixed hsets hlookup hclosed hcache
    have hcertain : ∀ set ∈ item.setList, setVerdict (asked metadata) (rule.evaluateGroups (asked metadata) cache).1
        item.prepareNestedMatch set = .yes → rule.reaches item (answered metadata response) cache = true := by
      intro set hset hyes
      have hpost := setVerdict_answered_eq_yes hsteady rfl hlookup (hsets set hset) hyes
      exact List.any_eq_true.mpr ⟨set, hset, decide_eq_true hpost⟩
    obtain ⟨set, hset, hne⟩ := ((matchSets_fst rfl _ _ _ _).mp hmatched).resolve_left (by simp)
    by_contra hmissed
    have hopen : setVerdict (asked metadata) (rule.evaluateGroups (asked metadata) cache).1
        item.prepareNestedMatch set = .unknown := by
      cases hverdict : setVerdict (asked metadata) (rule.evaluateGroups (asked metadata) cache).1
        item.prepareNestedMatch set with
      | no => exact absurd hverdict hne
      | unknown => rfl
      | yes => exact absurd (hcertain set hset hverdict) hmissed
    -- what is still deferred was closed by an item of the rule's own destination group
    have hdomain : Group.destinationAddress ∈ (rule.evaluateGroups (asked metadata) cache).1.satisfied := by
      have hsnapshot : (rule.evaluateGroups (asked metadata) cache).2.deferredIPCIDRMatchGroups = ∅ := by
        rw [evaluateGroups_deferred _ _ hcache, deferral_asked_of_no_lookup hlookup]
      have hne : (item.matchWithOuterGroups (asked metadata) (rule.evaluateGroups (asked metadata) cache).2
          (rule.evaluateGroups (asked metadata) cache).1).2.deferredIPCIDRMatchGroups ≠ ∅ := by
        intro hempty
        have hyes : verdict (item.matchWithOuterGroups (asked metadata) (rule.evaluateGroups (asked metadata) cache).2
            (rule.evaluateGroups (asked metadata) cache).1) = .yes := by
          rw [verdict, hmatched, hempty, standing_empty]
        rw [RuleSetItem.matchWithOuterGroups, verdict_matchSets rfl hsnapshot (by simp), Kleene.any_eq_yes,
          standing_false, List.mem_cons, List.mem_map] at hyes
        obtain ⟨other, hother, hcert⟩ := hyes.resolve_left (by decide)
        exact hmissed (hcertain other hother hcert)
      obtain ⟨group, hgroup⟩ := nonempty_iff_ne_empty.mpr hne
      have hdestination := item.matchWithOuterGroups_onlyDestination
        (hsnapshot.subset.trans (empty_subset _)) _ hgroup
      rw [mem_singleton.mp hdestination] at hgroup
      exact hclosed hgroup
    have haddress : rule.destinationAddressItems ≠ [] := by
      rw [mem_satisfied, satisfies_destination] at hdomain
      obtain ⟨i, hi, -⟩ := hdomain
      exact List.ne_nil_of_mem hi
    have honly : ¬∃ branch, IsOnly branch set := by
      rintro ⟨branch, honly⟩
      exact setVerdict_ne_unknown_of_address hsets hset honly haddress hopen
    rw [setVerdict_of_not_only honly] at hopen
    split_ifs at hopen with hdone
    apply hkeeps
    constructor
    · exact List.all_eq_true.mp hitems
    · exact evaluateGroups_done.mp hdone
    · rwa [mem_satisfied, satisfies_destination] at hdomain
    · refine ⟨set, hset, honly, ?_⟩
      by_contra hfalse
      rw [verdict, Bool.eq_false_of_not_eq_true hfalse, standing_false] at hopen
      cases hopen
    · rwa [reaches_answered] at hmissed

omit hsteady hunmixed hsets in
theorem inner_lost (h : Loses metadata response rule item cache) :
    verdict (rule.matchInner (asked metadata) cache fun groups snapshot =>
      item.matchWithOuterGroups (asked metadata) snapshot groups) = .yes := by
  have hdomain : Group.destinationAddress ∈ (rule.evaluateGroups (asked metadata) cache).1.satisfied := by
    rw [mem_satisfied, satisfies_destination]
    exact h.domain
  have hsnapshot : OnlyDestination (rule.evaluateGroups (asked metadata) cache).2 := by
    rw [OnlyDestination, evaluateGroups_deferred _ _ hcache]
    exact rule.deferral_subset cache
  rw [verdict_matchInner_sets _ _ _ (List.all_eq_true.mpr h.items), standing_eq_yes]
  constructor
  · obtain ⟨set, hset, honly, hmatch⟩ := h.expected
    apply (matchSets_fst rfl _ _ _ _).mpr
    refine Or.inr ⟨set, hset, ?_⟩
    rw [setVerdict_of_not_only honly, if_pos (evaluateGroups_done.mpr h.groups), verdict, hmatch]
    exact standing_true_ne_no _
  · rw [sdiff_eq_empty_iff_subset]
    exact (item.matchWithOuterGroups_onlyDestination hsnapshot _).trans (singleton_subset_iff.mpr hdomain)

end Sets

end Hydracore.Rules
