import Hydracore.Dns.Validation
import Hydracore.Rules.Congruence

namespace Hydracore.Dns

open Rules List

variable {κ : Type}

inductive SetsHeadless : Rule κ → Prop
  | default {rule : DefaultRule κ} {ruleSetItem : Option (RuleSetItem (Rule κ))} {matchResponse : Option String}
      (sets : ∀ item, ruleSetItem = some item → ∀ set ∈ item.setList, ∀ r ∈ set, r.Headless) :
      SetsHeadless (.default rule ruleSetItem matchResponse)
  | logical {mode : LogicalType} {invert : Bool} {rules : List (Rule κ)} (below : ∀ r ∈ rules, SetsHeadless r) :
      SetsHeadless (.logical mode invert rules)

variable {rules : List (Rule κ)} {tag : String}

theorem mem_matchResponseTagsAll : tag ∈ matchResponseTagsAll rules ↔ ∃ r ∈ rules, tag ∈ matchResponseTags r := by
  induction rules with
  | nil => simp [matchResponseTagsAll]
  | cons rule rules ih => simp [matchResponseTagsAll, ih]

theorem matchResponseAnonymousAny_iff :
    matchResponseAnonymousAny rules = true ↔ ∃ r ∈ rules, matchResponseAnonymous r = true := by
  induction rules with
  | nil => simp [matchResponseAnonymousAny]
  | cons rule rules ih => simp [matchResponseAnonymousAny, ih]

theorem matchResponseTags_ne_empty {r : Rule κ} (h : tag ∈ matchResponseTags r) : tag ≠ "" := by
  induction r using Rule.induction with
  | default rule ruleSetItem matchResponse _ =>
    cases matchResponse with
    | none => simp [matchResponseTags] at h
    | some bound =>
      simp only [matchResponseTags] at h
      split_ifs at h with hbound
      · simp at h
      · simpa [mem_singleton.mp h] using hbound
  | logical mode invert rules ih =>
    rw [matchResponseTags, mem_eraseDups, mem_matchResponseTagsAll] at h
    obtain ⟨r, hr, htag⟩ := h
    exact ih r hr htag

variable {use : DNSRuleResponseUse}

theorem validateDefaultRule_ok {rule : DefaultRule κ} {ruleSetItem : Option (RuleSetItem (Rule κ))}
    {matchResponse : Option String}
    (h : validateDefaultRule rule ruleSetItem matchResponse = .ok use) :
    (matchResponse = none → hasResponseMatchFields rule = false) ∧
      use.referencedTags = matchResponseTags (.default rule ruleSetItem matchResponse) := by
  simp only [validateDefaultRule] at h
  split_ifs at h with hfields hsets hempty
  cases matchResponse with
  | none =>
    cases h
    constructor
    · intro _
      cases hresponse : hasResponseMatchFields rule
      · rfl
      · simp [hresponse] at hfields
    · rw [matchResponseTags]
  | some tag =>
    cases h
    constructor
    · rintro ⟨⟩
    · rw [matchResponseTags]
      split_ifs <;> rfl

theorem validateSubRules_ok {i : ℕ} {use result : DNSRuleResponseUse}
    (h : validateSubRules rules i use = .ok result) : use.referencedTags ⊆ result.referencedTags ∧
      ∀ r ∈ rules, ∃ sub, validateTree r = .ok sub ∧ sub.referencedTags ⊆ result.referencedTags := by
  induction rules generalizing i use with
  | nil =>
    cases h
    exact ⟨Subset.refl _, nofun⟩
  | cons rule rules ih =>
    rw [validateSubRules] at h
    cases hrule : validateTree rule with
    | error err => simp [hrule] at h
    | ok sub =>
      rw [hrule] at h
      obtain ⟨hgathered, hrest⟩ := ih h
      obtain ⟨huse, hsub⟩ := append_subset.mp hgathered
      refine ⟨huse, ?_⟩
      rw [forall_mem_cons]
      exact ⟨⟨sub, hrule, hsub⟩, hrest⟩

theorem matchResponseTags_subset {r : Rule κ} (h : validateTree r = .ok use) :
    matchResponseTags r ⊆ use.referencedTags := by
  induction r using Rule.induction generalizing use with
  | default rule ruleSetItem matchResponse _ =>
    rw [(validateDefaultRule_ok h).2]
    exact Subset.refl _
  | logical mode invert rules ih =>
    intro tag htag
    rw [matchResponseTags, mem_eraseDups, mem_matchResponseTagsAll] at htag
    obtain ⟨r, hr, hbound⟩ := htag
    obtain ⟨sub, hsub, hincluded⟩ := (validateSubRules_ok h).2 r hr
    exact hincluded (ih r hr hsub hbound)

def withResponses (metadata : Metadata κ) (response : Option Msg) (named : String → Option Msg) : Metadata κ :=
  { metadata with
    dnsResponse := response, namedDNSResponses := named, destinationAddressMatchFromResponse := false }

section Agreement

variable {metadata : Metadata κ} {response response' : Option Msg} {named named' : String → Option Msg}

theorem sameSight_withResponses :
    SameSight (withResponses metadata response named) (withResponses metadata response' named') := by
  constructor
  · rfl
  · intro item hitem cache
    cases item with
    | response => simp [RuleItem.kind] at hitem
    | field | domain | port | destination | ipCIDR | ipIsPrivate | ipAcceptAny => rfl

theorem sameSight_fromResponse {bound : Option Msg} :
    SameSight ((withResponses metadata response named).fromResponse bound)
      ((withResponses metadata response' named').fromResponse bound) := by
  constructor
  · rfl
  · intro item _ cache
    cases item <;> rfl

theorem match_withResponses {r : Rule κ} (hsets : SetsHeadless r)
    (hok : validateTree r = .ok use) (hanonymous : matchResponseAnonymous r = true → response = response')
    (hnamed : ∀ tag ∈ matchResponseTags r, named tag = named' tag) (cache : RuleCache) :
    r.match (withResponses metadata response named) cache = r.match (withResponses metadata response' named') cache := by
  induction hsets generalizing use cache with
  | @default rule ruleSetItem matchResponse sets =>
    cases matchResponse with
    | none =>
      apply sameSight_withResponses.matchDefault sets
      intro item hitem
      apply sameSight_withResponses.items
      have hnone := (validateDefaultRule_ok hok).1 rfl
      simp only [hasResponseMatchFields, any_eq_false, decide_eq_true_eq] at hnone
      exact hnone item hitem
    | some tag =>
      have hbound : (withResponses metadata response named).boundResponse tag =
          (withResponses metadata response' named').boundResponse tag := by
        simp only [Metadata.boundResponse]
        split_ifs with htag
        · exact hanonymous (by simp [matchResponseAnonymous, htag])
        · exact hnamed tag (by simp [matchResponseTags, htag])
      rw [Rule.match, Rule.match, hbound]
      cases (withResponses metadata response' named').boundResponse tag with
      | none => rfl
      | some bound =>
        dsimp only
        rw [sameSight_fromResponse.matchDefault sets]
        intro item _
        cases item <;> rfl
  | logical below ih =>
    apply Rule.match_logical_congr
    intro r hr
    obtain ⟨sub, hsub, _⟩ := (validateSubRules_ok hok).2 r hr
    apply ih r hr hsub
    · exact fun h => hanonymous (by rw [matchResponseAnonymous]; exact matchResponseAnonymousAny_iff.mpr ⟨r, hr, h⟩)
    · intro tag htag
      apply hnamed
      rw [matchResponseTags, mem_eraseDups, mem_matchResponseTagsAll]
      exact ⟨r, hr, htag⟩

end Agreement

structure Accepted (rules : List (DNSRule κ)) : Prop where
  validated : validateLegacyDNSModeDisabledRules rules = .ok ()
  built : ∀ rule ∈ rules, newDNSRule rule = .ok ()
  sets : ∀ rule ∈ rules, SetsHeadless rule.rule

variable {rules : List (DNSRule κ)} {i k : ℕ} {seen : Bool} {defined : List String} {rule : DNSRule κ}

theorem validateRulesFrom_cons {first : DNSRule κ} (h : validateRulesFrom (first :: rules) i seen defined = .ok ()) :
    ∃ use, validateRuleTree first = .ok use ∧ use.referencedTags ⊆ defined ∧
      ∃ seen' later, validateRulesFrom rules (i + 1) seen' later = .ok () ∧
        (∀ tag, tag ∈ later ↔ tag ∈ defined ∨ (evaluateTag first.action = some tag ∧ tag ≠ "")) ∧
        ∀ tag, evaluateTag first.action = some tag → tag ≠ "" → tag ∉ defined := by
  rw [validateRulesFrom] at h
  cases hfirst : validateRuleTree first with
  | error err => simp [hfirst] at h
  | ok use =>
    simp only [hfirst] at h
    split_ifs at h
    split at h
    · cases h
    · rename_i htags
      have hdefined : ∀ tag ∈ use.referencedTags, tag ∈ defined := by simpa using htags
      refine ⟨use, rfl, fun tag htag => hdefined tag htag, ?_⟩
      cases htag : evaluateTag first.action with
      | none =>
        rw [htag] at h
        exact ⟨_, _, h, by simp, nofun⟩
      | some tag =>
        simp only [htag] at h
        split_ifs at h with hempty hdefined
        · refine ⟨_, _, h, ?_, ?_⟩
          · rintro other
            simp only [hempty, Option.some.injEq]
            exact ⟨.inl, fun hor => hor.resolve_right fun heq => heq.2 heq.1.symm⟩
          · rintro other ⟨rfl⟩ hne
            exact absurd hempty hne
        · refine ⟨_, _, h, ?_, ?_⟩
          · rintro other
            simp only [mem_append, mem_singleton, Option.some.injEq]
            apply or_congr_right
            exact ⟨by rintro rfl; exact ⟨rfl, hempty⟩, fun heq => heq.1.symm⟩
          · rintro other ⟨rfl⟩ _
            exact hdefined

structure CheckedAt (rules : List (DNSRule κ)) (defined : List String) (k : ℕ) (rule : DNSRule κ) : Prop where
  tree : ∃ use, validateRuleTree rule = .ok use ∧
    ∀ tag ∈ use.referencedTags, tag ∈ defined ∨ ∃ j < k, ∃ other, rules[j]? = some other ∧
      evaluateTag other.action = some tag
  fresh : ∀ tag, evaluateTag rule.action = some tag → tag ≠ "" →
    tag ∉ defined ∧ ∀ j < k, ∀ other, rules[j]? = some other → evaluateTag other.action ≠ some tag

theorem checkedAt_of_validateRulesFrom (h : validateRulesFrom rules i seen defined = .ok ())
    (hrule : rules[k]? = some rule) : CheckedAt rules defined k rule := by
  induction rules generalizing i seen defined k with
  | nil => simp at hrule
  | cons first rules ih =>
    obtain ⟨use, hfirst, htags, seen', later, hrest, hlater, hnew⟩ := validateRulesFrom_cons h
    cases k with
    | zero =>
      cases hrule
      constructor
      · exact ⟨use, hfirst, fun tag htag => .inl (htags htag)⟩
      · exact fun tag htag hne => ⟨hnew tag htag hne, by omega⟩
    | succ k =>
      have hchecked := ih hrest (by simpa using hrule)
      constructor
      · obtain ⟨use, huse, hdefined⟩ := hchecked.tree
        refine ⟨use, huse, ?_⟩
        intro tag htag
        obtain hmem | ⟨j, hj, other, hother, hevaluate⟩ := hdefined tag htag
        · exact ((hlater tag).mp hmem).imp_right fun hevaluate => ⟨0, by omega, first, rfl, hevaluate.1⟩
        · exact .inr ⟨j + 1, by omega, other, by simpa using hother, hevaluate⟩
      · intro tag htag hne
        obtain ⟨hunused, hothers⟩ := hchecked.fresh tag htag hne
        refine ⟨fun hmem => hunused ((hlater tag).mpr (.inl hmem)), ?_⟩
        intro j hj other hother
        cases j with
        | zero =>
          cases hother
          exact fun hevaluate => hunused ((hlater tag).mpr (.inr ⟨hevaluate, hne⟩))
        | succ j => exact hothers j (by omega) other (by simpa using hother)

namespace Accepted

theorem validateTree_ok (h : validateRuleTree rule = .ok use) :
    ∃ below, validateTree rule.rule = .ok below ∧ below.referencedTags = use.referencedTags ∧
      (rule.action.isRespond = true → rule.matchResponseTag = "" → rule.tags = []) := by
  simp only [validateRuleTree] at h
  cases hbelow : validateTree rule.rule with
  | error err => simp [hbelow] at h
  | ok below =>
    have hsubset := matchResponseTags_subset hbelow
    simp only [hbelow] at h
    refine ⟨below, rfl, ?_⟩
    cases hrespond : rule.action.isRespond with
    | false =>
      simp only [hrespond, Bool.false_eq_true, if_false] at h
      cases h
      exact ⟨rfl, nofun⟩
    | true =>
      cases hrule : rule.rule with
      | default own ruleSetItem matchResponse =>
        simp only [hrule] at h
        constructor
        · split_ifs at h <;> rw [← Except.ok.inj h]
        · intro _ htag
          cases matchResponse with
          | none => simp [DNSRule.tags, hrule, matchResponseTags]
          | some tag =>
            simp only [DNSRule.matchResponseTag, hrule, Option.getD_some] at htag
            simp [DNSRule.tags, hrule, matchResponseTags, htag]
      | logical mode invert subRules =>
        simp only [hrule] at h
        split_ifs at h with hempty
        constructor
        · rw [← Except.ok.inj h]
        · intro _ _
          rw [List.isEmpty_iff.mp hempty] at hsubset
          exact subset_nil.mp hsubset

theorem newDNSRule_ok (h : newDNSRule rule = .ok ()) :
    rule.action.isReply = false ∧ (rule.race = true → rule.action.isFinal = true ∧ rule.hasBindings = true) := by
  cases hrule : rule.rule with
  | default | logical =>
    simp only [newDNSRule, validateDNSRuleAction, hrule] at h
    split_ifs at h
    simp_all

variable (h : Accepted rules) (hrule : rules[k]? = some rule)

include h hrule

theorem checkedAt : CheckedAt rules [] k rule :=
  checkedAt_of_validateRulesFrom h.validated hrule

theorem exists_evaluate (htag : tag ∈ rule.tags) :
    ∃ j < k, ∃ other, rules[j]? = some other ∧ evaluateTag other.action = some tag := by
  obtain ⟨use, huse, hdefined⟩ := (h.checkedAt hrule).tree
  obtain ⟨below, hbelow, htags, _⟩ := validateTree_ok huse
  have hmem : tag ∈ use.referencedTags := htags ▸ matchResponseTags_subset hbelow htag
  exact (hdefined tag hmem).resolve_left nofun

theorem evaluate_inj {j : ℕ} {other : DNSRule κ} (hne : tag ≠ "") (hother : rules[j]? = some other)
    (htag : evaluateTag rule.action = some tag) (htag' : evaluateTag other.action = some tag) : j = k := by
  obtain hlt | heq | hlt := lt_trichotomy j k
  · exact absurd htag' (((h.checkedAt hrule).fresh tag htag hne).2 j hlt other hother)
  · exact heq
  · exact absurd htag (((h.checkedAt hother).fresh tag htag' hne).2 k hlt rule hrule)

theorem tags_of_respond (hrespond : rule.action.isRespond = true) (htag : rule.matchResponseTag = "") : rule.tags = [] := by
  obtain ⟨use, huse, _⟩ := (h.checkedAt hrule).tree
  obtain ⟨below, _, _, hnone⟩ := validateTree_ok huse
  exact hnone hrespond htag

theorem matchWith_congr {metadata : Metadata κ} {response response' : Option Message}
    {named named' : String → Option Message}
    (hanonymous : rule.anonymous = true → response = response') (hnamed : ∀ tag ∈ rule.tags, named tag = named' tag) :
    rule.matchWith metadata response named = rule.matchWith metadata response' named' := by
  obtain ⟨use, huse, _⟩ := (h.checkedAt hrule).tree
  obtain ⟨below, hbelow, _⟩ := validateTree_ok huse
  have hsets := h.sets rule (mem_of_getElem? hrule)
  apply congrArg Prod.fst
  apply match_withResponses hsets hbelow
  · exact fun hbound => by rw [hanonymous hbound]
  · exact fun tag htag => by rw [hnamed tag htag]

end Accepted

end Hydracore.Dns
