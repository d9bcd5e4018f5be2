import Hydracore.Rules.Sets

namespace Hydracore.Rules

open Systems List DefaultRule Kleene Rule Finset RuleGroupMatch

variable {κ : Type}

structure AfterLookup (metadata : Metadata κ) (cache : RuleCache) : Prop where
  notIgnored : metadata.ignoreDestinationIPCIDRMatch = false
  nothingDeferred : cache.deferredIPCIDRMatchGroups = ∅

def IsOnly (branch : DefaultRule κ) (set : List (Rule κ)) : Prop :=
  set = [.default branch none none] ∧ branch.invert = false

variable {set : List (Rule κ)} {branch : DefaultRule κ}

theorem mergeableRuleIn_eq_some : mergeableRuleIn set = some branch ↔ IsOnly branch set := by
  constructor
  · intro h
    unfold mergeableRuleIn at h
    split at h
    · split_ifs at h with hinvert
      cases h
      exact ⟨rfl, by simpa using hinvert⟩
    · cases h
  · rintro ⟨rfl, hinvert⟩
    simp [mergeableRuleIn, hinvert]

theorem mergeableRuleIn_eq_none : mergeableRuleIn set = none ↔ ¬∃ branch, IsOnly branch set := by
  simp only [← mergeableRuleIn_eq_some, Option.eq_none_iff_forall_ne_some, not_exists]

section Decided

variable {metadata : Metadata κ} (hignore : metadata.ignoreDestinationIPCIDRMatch = false)

theorem verdict_eq_ofBool {outcome : Bool × RuleCache} (h : verdict outcome ≠ .unknown) :
    verdict outcome = .ofBool outcome.1 := by
  obtain ⟨_ | _, cache⟩ := outcome
  · rfl
  · by_cases hopen : cache.deferredIPCIDRMatchGroups = ∅
    · simp [verdict, hopen, ofBool]
    · exact absurd (standing_open hopen) h

theorem standing_sdiff_of_decided {matched b : Bool} {deferred : RuleMatchState}
    (h : standing matched deferred = .ofBool b) (satisfied : RuleMatchState) :
    standing matched (deferred \ satisfied) = .ofBool b := by
  cases matched with
  | false => exact h
  | true =>
    by_cases hopen : deferred = ∅
    · rwa [hopen, empty_sdiff, ← hopen]
    · exact absurd (h.symm.trans (standing_open hopen)) (ofBool_ne_unknown b)

include hignore

theorem DefaultRule.deferral_eq_empty (rule : DefaultRule κ) (cache : RuleCache) :
    rule.deferral metadata cache = ∅ := by
  simp [deferral, hignore]

theorem setVerdict_ne_unknown (outer : RuleGroupMatch) {nested : RuleCache}
    (hnested : nested.deferredIPCIDRMatchGroups = ∅)
    (hset : ∀ r ∈ set, verdict (r.match metadata nested) ≠ .unknown) :
    setVerdict metadata outer nested set ≠ .unknown := by
  simp only [setVerdict]
  cases hmerge : mergeableRuleIn set with
  | some branch =>
    simp only [branch.deferral_eq_empty hignore]
    split_ifs <;> simp
  | none =>
    rw [verdict_matchRuleSet set metadata hnested,
      map_congr_left fun r hr => verdict_eq_ofBool (hset r hr), any_map_ofBool]
    split_ifs
    · exact ofBool_ne_unknown _
    · simp

def DefaultRule.reaches (rule : DefaultRule κ) (item : RuleSetItem (Rule κ)) (metadata : Metadata κ)
    (cache : RuleCache) : Bool :=
  item.setList.any fun set =>
    setVerdict metadata (rule.evaluateGroups metadata cache).1 item.prepareNestedMatch set = .yes

omit hignore in
theorem LogicalType.join_map_ofBool (mode : LogicalType) (rules : List (Rule κ)) (f : Rule κ → Bool) :
    mode.join (rules.map fun r => .ofBool (f r)) = .ofBool (match mode with
      | .and => rules.all f
      | .or => rules.any f) := by
  cases mode with
  | and => exact all_map_ofBool ..
  | or => exact any_map_ofBool ..

variable {cache : RuleCache} (hcache : cache.deferredIPCIDRMatchGroups = ∅)

include hcache

theorem DefaultRule.verdict_matchInner_reaches (rule : DefaultRule κ) (item : RuleSetItem (Rule κ))
    (hsets : ∀ set ∈ item.setList, ∀ r ∈ set, verdict (r.match metadata item.prepareNestedMatch) ≠ .unknown) :
    verdict (rule.matchInner metadata cache fun groups snapshot => item.matchWithOuterGroups metadata snapshot groups) =
      .ofBool (rule.itemsMatch metadata cache && rule.reaches item metadata cache) := by
  cases h : rule.itemsMatch metadata cache with
  | false => rw [verdict_matchInner_of_not_items _ _ h]; rfl
  | true =>
    have hsnapshot : (rule.evaluateGroups metadata cache).2.deferredIPCIDRMatchGroups = ∅ := by
      rw [evaluateGroups_deferred _ _ hcache, deferral_eq_empty hignore]
    have houtcome : verdict (item.matchWithOuterGroups metadata (rule.evaluateGroups metadata cache).2
        (rule.evaluateGroups metadata cache).1) = .ofBool (rule.reaches item metadata cache) := by
      have hset : ∀ set ∈ item.setList, setVerdict metadata (rule.evaluateGroups metadata cache).1
          item.prepareNestedMatch set ≠ .unknown :=
        fun set hset => setVerdict_ne_unknown hignore _ rfl (hsets set hset)
      rw [RuleSetItem.matchWithOuterGroups, verdict_matchSets rfl hsnapshot (by simp), reaches,
        ← any_map_ofBool, map_congr_left fun set hmem => ofBool_decide (hset set hmem)]
      rfl
    rw [verdict_matchInner_sets _ _ _ h]
    exact standing_sdiff_of_decided houtcome _

theorem DefaultRule.verdict_matchInner_ofBool (rule : DefaultRule κ) :
    verdict (rule.matchInner metadata cache fun groups cache => (groups.done, cache)) =
      .ofBool (rule.itemsMatch metadata cache && (rule.evaluateGroups metadata cache).1.done) := by
  cases h : rule.itemsMatch metadata cache with
  | false => rw [rule.verdict_matchInner_of_not_items _ h]; rfl
  | true =>
    rw [rule.verdict_matchInner_done _ hcache h, rule.deferral_eq_empty hignore, empty_sdiff]
    cases (rule.evaluateGroups metadata cache).1.done <;> rfl

theorem Rule.verdict_ne_unknown (r : Rule κ) : verdict (r.match metadata cache) ≠ .unknown := by
  induction r using Rule.induction generalizing metadata cache with
  | default rule ruleSetItem matchResponse ih =>
    cases matchResponse with
    | some tag =>
      rw [Rule.match]
      split <;> simp [verdict, hcache, standing] <;> split_ifs <;> simp
    | none =>
      rw [Rule.match]
      cases ruleSetItem with
      | none =>
        rw [matchDefault]
        split_ifs with hempty
        · simp [verdict, hcache]
        · rw [verdict_inverted, rule.verdict_matchInner_ofBool hignore hcache, invertIf_ofBool]
          exact ofBool_ne_unknown _
      | some item =>
        rw [matchDefault_some, verdict_inverted, verdict_matchInner_reaches hignore hcache _ _
          fun set hset r hr => ih item rfl set hset r hr hignore rfl, invertIf_ofBool]
        exact ofBool_ne_unknown _
  | logical mode invert rules ih =>
    rw [verdict_logical metadata mode invert rules hcache,
      map_congr_left fun r hr => verdict_eq_ofBool (ih r hr hignore rfl), mode.join_map_ofBool, invertIf_ofBool]
    exact ofBool_ne_unknown _

theorem Rule.verdict_eq (r : Rule κ) : verdict (r.match metadata cache) = .ofBool (r.match metadata cache).1 :=
  verdict_eq_ofBool (r.verdict_ne_unknown hignore hcache)

theorem matchDefault_some_fst (rule : DefaultRule κ) (item : RuleSetItem (Rule κ)) :
    (matchDefault rule (some item) metadata cache).1 =
      ((rule.itemsMatch metadata cache && rule.reaches item metadata cache) ^^ rule.invert) := by
  apply ofBool_inj.mp
  rw [← invertIf_ofBool, ← rule.verdict_matchInner_reaches hignore hcache item
    fun set _ r _ => r.verdict_ne_unknown hignore rfl, ← verdict_inverted, ← matchDefault_some]
  have h := (default rule (some item) none).verdict_eq hignore hcache
  exact h.symm

theorem matchDefault_none_fst (rule : DefaultRule κ) (hitems : rule.allItems.isEmpty = false) :
    (matchDefault rule none metadata cache).1 =
      ((rule.itemsMatch metadata cache && (rule.evaluateGroups metadata cache).1.done) ^^ rule.invert) := by
  apply ofBool_inj.mp
  rw [← invertIf_ofBool, ← rule.verdict_matchInner_ofBool hignore hcache, ← verdict_inverted]
  have h := (default rule none none).verdict_eq hignore hcache
  rw [Rule.match] at h
  rw [← h, matchDefault, hitems]
  rfl

theorem match_logical_fst (mode : LogicalType) (invert : Bool) (rules : List (Rule κ)) :
    ((logical mode invert rules).match metadata cache).1 =
      ((match mode with
        | .and => rules.all fun r => (r.match metadata .fresh).1
        | .or => rules.any fun r => (r.match metadata .fresh).1) ^^ invert) := by
  apply ofBool_inj.mp
  rw [← verdict_eq hignore hcache, verdict_logical metadata mode invert rules hcache,
    map_congr_left fun r _ => r.verdict_eq hignore rfl, mode.join_map_ofBool, invertIf_ofBool]

end Decided

section Semantics

def Through (rule : DefaultRule κ) (metadata : Metadata κ) (cache nested : RuleCache) (set : List (Rule κ)) : Prop :=
  (∃ branch, IsOnly branch set ∧ (∀ item ∈ branch.items, item.match metadata nested = true) ∧
    ∀ group, rule.Constrains metadata cache group ∨ branch.Constrains metadata nested group →
      rule.Satisfies metadata cache group ∨ branch.Satisfies metadata nested group) ∨
  ((¬∃ branch, IsOnly branch set) ∧
    (∀ group, rule.Constrains metadata cache group → rule.Satisfies metadata cache group) ∧
    ∃ r ∈ set, (r.match metadata nested).1 = true)

def Holds (rule : DefaultRule κ) (item : RuleSetItem (Rule κ)) (metadata : Metadata κ) (cache : RuleCache) : Prop :=
  (∀ i ∈ rule.items, i.match metadata cache = true) ∧
    ∃ set ∈ item.setList, Through rule metadata cache item.prepareNestedMatch set

def viewed (matchResponse : Option String) (metadata : Metadata κ) : Option (Metadata κ) :=
  match matchResponse with
  | none => some metadata
  | some tag => (metadata.boundResponse tag).map fun response => metadata.fromResponse response

variable {rule : DefaultRule κ} {metadata : Metadata κ} {cache : RuleCache}

theorem evaluateGroups_done : (rule.evaluateGroups metadata cache).1.done = true ↔
      ∀ group, rule.Constrains metadata cache group → rule.Satisfies metadata cache group := by
  simp only [done_iff, subset_iff, mem_required, mem_satisfied]

variable {cache nested : RuleCache}

theorem mergedGroups_done {rule branch : DefaultRule κ} :
    (mergedGroups metadata (rule.evaluateGroups metadata cache).1 nested branch).done = true ↔
      ∀ group, rule.Constrains metadata cache group ∨ branch.Constrains metadata nested group →
        rule.Satisfies metadata cache group ∨ branch.Satisfies metadata nested group := by
  simp only [done_iff, subset_iff, mergedGroups, mergeWith, mem_union, mem_required, mem_satisfied]

theorem matchRuleSet_fst (hignore : metadata.ignoreDestinationIPCIDRMatch = false)
    (set : List (Rule κ)) (hcache : cache.deferredIPCIDRMatchGroups = ∅) :
    verdict (matchRuleSet set metadata cache) = .ofBool (set.any fun r => (r.match metadata cache).1) := by
  rw [verdict_matchRuleSet set metadata hcache,
    map_congr_left fun r _ => r.verdict_eq hignore hcache, any_map_ofBool]

theorem setVerdict_eq_yes (hignore : metadata.ignoreDestinationIPCIDRMatch = false)
    (hnested : nested.deferredIPCIDRMatchGroups = ∅) :
    setVerdict metadata (rule.evaluateGroups metadata cache).1 nested set = .yes ↔
      Through rule metadata cache nested set := by
  cases hmerge : mergeableRuleIn set with
  | some branch =>
    have honly := mergeableRuleIn_eq_some.mp hmerge
    have hunique : ∀ other, IsOnly other set → other = branch := by
      intro other hother
      rw [← mergeableRuleIn_eq_some, hmerge] at hother
      exact (Option.some.inj hother).symm
    have hverdict : setVerdict metadata (rule.evaluateGroups metadata cache).1 nested set = .yes ↔
        branch.itemsMatch metadata nested = true ∧
          (mergedGroups metadata (rule.evaluateGroups metadata cache).1 nested branch).done = true := by
      simp only [setVerdict, hmerge, branch.deferral_eq_empty hignore, empty_sdiff, standing_empty]
      split_ifs with h <;> simpa using h
    rw [hverdict, mergedGroups_done, itemsMatch, all_eq_true]
    constructor
    · exact fun h => Or.inl ⟨branch, honly, h⟩
    · rintro (⟨other, hother, h⟩ | ⟨hnone, -⟩)
      · exact hunique other hother ▸ h
      · exact absurd ⟨branch, honly⟩ hnone
  | none =>
    have hnone := mergeableRuleIn_eq_none.mp hmerge
    have hverdict : setVerdict metadata (rule.evaluateGroups metadata cache).1 nested set = .yes ↔
        (rule.evaluateGroups metadata cache).1.done = true ∧ ∃ r ∈ set, (r.match metadata nested).1 = true := by
      simp only [setVerdict, hmerge, matchRuleSet_fst hignore set hnested, ofBool, ← any_eq_true]
      split_ifs <;> simp_all
    rw [hverdict, evaluateGroups_done]
    constructor
    · exact fun h => Or.inr ⟨hnone, h⟩
    · rintro (⟨branch, honly, -⟩ | ⟨-, h⟩)
      · exact absurd ⟨branch, honly⟩ hnone
      · exact h

variable {item : RuleSetItem (Rule κ)}

theorem matchDefault_some_iff (h : AfterLookup metadata cache) :
    (matchDefault rule (some item) metadata cache).1 = true ↔
      Xor (rule.invert = true) (Holds rule item metadata cache) := by
  have hholds : (rule.itemsMatch metadata cache && rule.reaches item metadata cache) = true ↔
      Holds rule item metadata cache := by
    simp only [Bool.and_eq_true, itemsMatch, reaches, all_eq_true, any_eq_true,
      decide_eq_true_eq, setVerdict_eq_yes h.notIgnored (rfl : item.prepareNestedMatch.deferredIPCIDRMatchGroups = ∅)]
    rfl
  rw [matchDefault_some_fst h.notIgnored h.nothingDeferred rule item, ← hholds]
  cases rule.invert <;> cases rule.itemsMatch metadata cache && rule.reaches item metadata cache <;> simp [Xor]

theorem match_default_iff {matchResponse : Option String} (h : AfterLookup metadata cache) :
    ((Rule.default rule (some item) matchResponse).match metadata cache).1 = true ↔
      Xor (rule.invert = true) (∃ seen, viewed matchResponse metadata = some seen ∧ Holds rule item seen cache) := by
  cases matchResponse with
  | none =>
    rw [Rule.match, matchDefault_some_iff h]
    simp [viewed]
  | some tag =>
    rw [Rule.match]
    cases hbound : metadata.boundResponse tag with
    | none => simp [viewed, hbound, Xor]
    | some response =>
      have hview : AfterLookup (metadata.fromResponse response) cache := ⟨h.notIgnored, h.nothingDeferred⟩
      rw [matchDefault_some_iff hview]
      simp [viewed, hbound]

def SameSets (sets others : List (List (Rule κ))) : Prop :=
  ∃ permuted, sets.Perm permuted ∧ List.Forall₂ List.Perm permuted others

theorem IsOnly.perm {set other : List (Rule κ)} (hperm : set.Perm other) :
    IsOnly branch set ↔ IsOnly branch other := by
  constructor
  · rintro ⟨rfl, h⟩
    exact ⟨perm_singleton.mp hperm.symm, h⟩
  · rintro ⟨rfl, h⟩
    exact ⟨perm_singleton.mp hperm, h⟩

theorem Through.perm {set other : List (Rule κ)} (hperm : set.Perm other) :
    Through rule metadata cache nested set ↔ Through rule metadata cache nested other := by
  simp only [Through, IsOnly.perm hperm, hperm.mem_iff]

theorem Holds.sameSets {item other : RuleSetItem (Rule κ)}
    (hflags : other.prepareNestedMatch = item.prepareNestedMatch) (hsets : SameSets item.setList other.setList) :
    Holds rule item metadata cache ↔ Holds rule other metadata cache := by
  obtain ⟨permuted, hperm, hinner⟩ := hsets
  have hthrough : ∀ sets others : List (List (Rule κ)), Forall₂ Perm sets others →
      ((∃ set ∈ sets, Through rule metadata cache item.prepareNestedMatch set) ↔
        ∃ set ∈ others, Through rule metadata cache item.prepareNestedMatch set) := by
    intro sets others hforall
    induction hforall with
    | nil => rfl
    | cons hset _ ih => simp only [exists_mem_cons_iff, Through.perm hset, ih]
  simp only [Holds, hflags, hperm.mem_iff, hthrough permuted other.setList hinner]

end Semantics

theorem ruleSet_merging (rule : DefaultRule κ) (item : RuleSetItem (Rule κ)) (matchResponse : Option String)
    (metadata : Metadata κ) (cache : RuleCache) (h : AfterLookup metadata cache) :
    let outcome := (default rule (some item) matchResponse).match metadata cache
    (outcome.1 = true ↔ Xor (rule.invert = true)
      (∃ seen, viewed matchResponse metadata = some seen ∧ Holds rule item seen cache)) ∧
    (∀ other : RuleSetItem (Rule κ), other.ipCidrMatchSource = item.ipCidrMatchSource →
      other.ipCidrAcceptEmpty = item.ipCidrAcceptEmpty → SameSets item.setList other.setList →
      ((default rule (some other) matchResponse).match metadata cache).1 = outcome.1) ∧
    outcome.2.ipCIDRMatchSource = cache.ipCIDRMatchSource ∧
    outcome.2.ipCIDRAcceptEmpty = cache.ipCIDRAcceptEmpty := by
  intro outcome
  refine ⟨match_default_iff h, ?_, ?_⟩
  · intro other hsource hempty hsets
    have hflags : other.prepareNestedMatch = item.prepareNestedMatch := by
      simp only [RuleSetItem.prepareNestedMatch, hsource, hempty]
    apply Bool.eq_iff_iff.mpr
    rw [match_default_iff h, match_default_iff h]
    simp only [Holds.sameSets hflags hsets]
  · exact Prod.ext_iff.mp (match_flags _ metadata cache)

theorem ruleSet_merging_domain : let rule : DefaultRule Unit := ⟨[], [], [], [], [], [.port false (· = 443)], false⟩
    let branch : DefaultRule Unit := ⟨[], [], [], [.domain (· = "b.example.com")], [], [], false⟩
    let item : RuleSetItem (Rule Unit) := ⟨[[.default branch none none]], false, false⟩
    let metadata : Metadata Unit :=
      ⟨⟨none, "", 5353⟩, ⟨none, "", 443⟩, "b.example.com", [], none, fun _ => none, false, false, ()⟩
    Xor (rule.invert = true) (∃ seen, viewed none metadata = some seen ∧ Holds rule item seen .fresh) := by
  intro rule branch item metadata
  exact (ruleSet_merging rule item none metadata .fresh ⟨rfl, rfl⟩).1.mp rfl

end Hydracore.Rules
