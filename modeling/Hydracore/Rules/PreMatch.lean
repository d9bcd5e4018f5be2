import Hydracore.Rules.PreLookup

namespace Hydracore.Rules

open Systems Kleene DefaultRule Rule RuleCache

variable {κ : Type}

/-- No default rule mixes domain-type items with items that need the lookup, alone or merged. Below a logical
rule the source flag is off. -/
inductive Rule.Unmixed : Bool → Rule κ → Prop
  | default {source : Bool} {rule : DefaultRule κ} {ruleSetItem : Option (RuleSetItem (Rule κ))}
      {matchResponse : Option String} (alone : rule.Unmixed source)
      (sets : ∀ item, ruleSetItem = some item → ∀ set ∈ item.setList, ∀ r ∈ set, Unmixed item.ipCidrMatchSource r)
      (merged : ∀ item, ruleSetItem = some item → ∀ set ∈ item.setList, ∀ branch, IsOnly branch set →
        rule.UnmixedWith branch source item.ipCidrMatchSource) :
      Unmixed source (.default rule ruleSetItem matchResponse)
  | logical {source : Bool} {mode : LogicalType} {invert : Bool} {rules : List (Rule κ)}
      (below : ∀ r ∈ rules, Unmixed false r) : Unmixed source (.logical mode invert rules)

inductive Rule.WithoutResponse : Rule κ → Prop
  | default {rule : DefaultRule κ} {ruleSetItem : Option (RuleSetItem (Rule κ))} (settled : rule.Settled)
      (sets : ∀ item, ruleSetItem = some item → ∀ set ∈ item.setList, ∀ r ∈ set, r.Headless) :
      WithoutResponse (.default rule ruleSetItem none)
  | logical {mode : LogicalType} {invert : Bool} {rules : List (Rule κ)} (below : ∀ r ∈ rules, WithoutResponse r) :
      WithoutResponse (.logical mode invert rules)

def Rule.Transparent (metadata : Metadata κ) (response : Option Msg) (odd : Bool) (mode : LogicalType)
    (r : Rule κ) : Prop :=
  match mode, odd with
  | .and, false => (r.match (answered metadata response) .fresh).1 = true
  | .and, true => verdict (r.match (asked metadata) .fresh) = .yes
  | .or, false => verdict (r.match (asked metadata) .fresh) = .no
  | .or, true => (r.match (answered metadata response) .fresh).1 = false

/-- A default rule below an odd number of inversions, its own included, loses an open set and nothing on the
way up hides it; `odd` counts the inversions above. -/
inductive Rule.Lost (metadata : Metadata κ) (response : Option Msg) : Bool → Rule κ → Prop
  | default {odd : Bool} {rule : DefaultRule κ} {item : RuleSetItem (Rule κ)} (inverted : (odd ^^ rule.invert) = true)
      (loses : Loses metadata response rule item .fresh) :
      Lost metadata response odd (.default rule (some item) none)
  | logical {odd : Bool} {mode : LogicalType} {invert : Bool} {rules : List (Rule κ)} {r : Rule κ} (mem : r ∈ rules)
      (lost : Lost metadata response (odd ^^ invert) r)
      (beside : ∀ other ∈ rules, other.Transparent metadata response (odd ^^ invert) mode) :
      Lost metadata response odd (.logical mode invert rules)

section Bounds

variable {metadata : Metadata κ} {response : Option Msg}

variable {side : Bool} {cache : RuleCache} {rule : DefaultRule κ} {rules : List (Rule κ)} {mode : LogicalType}

theorem logical_bounds {invert : Bool} (hcache : cache.deferredIPCIDRMatchGroups = ∅)
    (h : ∀ r ∈ rules, Bounds (side ^^ invert) (verdict (r.match (asked metadata) .fresh))
      (r.match (answered metadata response) .fresh).1) :
    Bounds side (verdict ((logical mode invert rules).match (asked metadata) cache))
      ((logical mode invert rules).match (answered metadata response) cache).1 := by
  rw [verdict_logical _ mode invert rules hcache, match_logical_fst rfl hcache mode invert rules, bounds_invertIf]
  cases mode with
  | and => exact bounds_all h
  | or => exact bounds_any h

theorem not_logical_bounds {invert : Bool} :
    ¬Bounds side (verdict ((logical mode invert rules).match (asked metadata) .fresh))
        ((logical mode invert rules).match (answered metadata response) .fresh).1 ↔
      (∃ r ∈ rules, ¬Bounds (side ^^ invert) (verdict (r.match (asked metadata) .fresh))
        (r.match (answered metadata response) .fresh).1) ∧
      ∀ r ∈ rules, r.Transparent metadata response (side ^^ invert) mode := by
  rw [verdict_logical _ mode invert rules rfl, match_logical_fst rfl rfl mode invert rules, bounds_invertIf]
  cases mode with
  | and =>
    cases side ^^ invert with
    | false => exact not_bounds_all_false
    | true => exact not_bounds_all_true
  | or =>
    cases side ^^ invert with
    | false => exact not_bounds_any_false
    | true => exact not_bounds_any_true

section

variable (side : Bool) (hcache : cache.deferredIPCIDRMatchGroups = ∅)
  (hsteady : rule.Steady cache.ipCIDRMatchSource) (hunmixed : rule.Unmixed cache.ipCIDRMatchSource)
include hcache hsteady hunmixed

theorem inner_done_bounds :
    Bounds side (verdict (rule.matchInner (asked metadata) cache fun groups cache => (groups.done, cache)))
      (rule.itemsMatch (answered metadata response) cache &&
        (rule.evaluateGroups (answered metadata response) cache).1.done) := by
  cases hitems : rule.itemsMatch (asked metadata) cache with
  | false =>
    rw [verdict_matchInner_of_not_items _ _ hitems, ← itemsMatch_asked hsteady.settled, hitems]
    cases side <;> simp [Bounds]
  | true =>
    rw [verdict_matchInner_done _ _ hcache hitems, ← itemsMatch_asked hsteady.settled, hitems, Bool.true_and]
    cases side with
    | false =>
      intro hno
      apply Bool.eq_false_of_not_eq_true
      intro hdone
      rw [done_asked hsteady hunmixed hdone] at hno
      exact standing_true_ne_no _ hno
    | true =>
      intro hyes
      obtain ⟨hdone, hclosed⟩ := standing_eq_yes.mp hyes
      have hlookup : rule.lookupItems cache.ipCIDRMatchSource = [] := by
        by_contra hlookup
        have haddress := hunmixed.resolve_right hlookup
        rw [deferral_asked_of_lookup hlookup haddress, Finset.sdiff_eq_empty_iff_subset,
          Finset.singleton_subset_iff] at hclosed
        exact not_mem_satisfied_of_no_address haddress hclosed
      rwa [← evaluateGroups_asked hsteady hlookup]

theorem default_none_bounds : Bounds side (verdict (matchDefault rule none (asked metadata) cache))
      (matchDefault rule none (answered metadata response) cache).1 := by
  cases hempty : rule.allItems.isEmpty with
  | true =>
    rw [matchDefault, matchDefault, hempty]
    cases side <;> simp [Bounds, verdict, standing, hcache]
  | false =>
    rw [matchDefault_none_fst rfl hcache rule hempty, matchDefault, hempty, if_neg Bool.false_ne_true,
      verdict_inverted]
    rw [bounds_invertIf]
    exact inner_done_bounds _ hcache hsteady hunmixed

end

theorem Rule.Headless.bounds {r : Rule κ} (h : r.Headless)
    (hcache : cache.deferredIPCIDRMatchGroups = ∅) (hunmixed : r.Unmixed cache.ipCIDRMatchSource) (side : Bool) :
    Bounds side (verdict (r.match (asked metadata) cache)) (r.match (answered metadata response) cache).1 := by
  induction h generalizing cache side with
  | @default rule built =>
    cases hunmixed with
    | default alone sets merged =>
      exact default_none_bounds side hcache ⟨built.settled, fun _ => built.destinationIPCIDR⟩ alone
  | logical built ih =>
    cases hunmixed with
    | logical rules => exact logical_bounds hcache fun r hr => ih r hr rfl (rules r hr) _

variable {item : RuleSetItem (Rule κ)}

theorem Rule.Unmixed.referenced {matchResponse : Option String}
    (hunmixed : Unmixed cache.ipCIDRMatchSource (.default rule (some item) matchResponse))
    (hsets : ∀ set ∈ item.setList, ∀ r ∈ set, r.Headless) {set : List (Rule κ)} (hset : set ∈ item.setList) :
    Referenced metadata response rule cache item.prepareNestedMatch set := by
  cases hunmixed with
  | default alone sets merged =>
    constructor
    · intro branch honly
      refine ⟨?_, merged item rfl set hset branch honly⟩
      have hbranch := hsets set hset (.default branch none none) (honly.1 ▸ List.mem_singleton_self _)
      cases hbranch with
      | default built => exact ⟨built.settled, fun _ => built.destinationIPCIDR⟩
    · exact fun r hr side => (hsets set hset r hr).bounds rfl (sets item rfl set hset r hr) side

theorem default_some_bounds (hsettled : rule.Settled) (hunmixed : Unmixed false (.default rule (some item) none))
    (hsets : ∀ set ∈ item.setList, ∀ r ∈ set, r.Headless) :
    ¬Bounds side (verdict (matchDefault rule (some item) (asked metadata) .fresh))
        (matchDefault rule (some item) (answered metadata response) .fresh).1 ↔
      (side ^^ rule.invert) = true ∧ Loses metadata response rule item .fresh := by
  have hsteady : rule.Steady fresh.ipCIDRMatchSource := ⟨hsettled, by simp [fresh]⟩
  have hreferenced : ∀ set ∈ item.setList, Referenced metadata response rule .fresh item.prepareNestedMatch set :=
    fun set hset => Unmixed.referenced hunmixed hsets hset
  have halone : rule.Unmixed fresh.ipCIDRMatchSource := by
    cases hunmixed with
    | default alone _ _ => exact alone
  rw [matchDefault_some_fst rfl rfl rule item, matchDefault_some, verdict_inverted, bounds_invertIf]
  cases side ^^ rule.invert with
  | false =>
    simp only [Bool.false_eq_true, false_and, iff_false, not_not]
    exact inner_excluded hsteady halone hreferenced
  | true =>
    rw [not_bounds_true]
    constructor
    · rintro ⟨hyes, hpost⟩
      refine ⟨rfl, ?_⟩
      by_contra hkeeps
      rw [inner_certain rfl hsteady halone hreferenced hyes hkeeps] at hpost
      cases hpost
    · rintro ⟨-, hloses⟩
      refine ⟨inner_lost rfl hloses, ?_⟩
      rw [Bool.and_eq_false_iff]
      right
      apply Bool.eq_false_of_not_eq_true
      rw [reaches_answered]
      exact hloses.missed

theorem Rule.WithoutResponse.lost_iff {r : Rule κ} (h : r.WithoutResponse) (hunmixed : r.Unmixed false) :
    r.Lost metadata response side ↔ ¬Bounds side (verdict (r.match (asked metadata) .fresh))
      (r.match (answered metadata response) .fresh).1 := by
  induction h generalizing side with
  | @default rule ruleSetItem settled sets =>
    rw [Rule.match, Rule.match]
    cases ruleSetItem with
    | none =>
      cases hunmixed with
      | default alone _ _ =>
        have hbounds : Bounds side (verdict (matchDefault rule none (asked metadata) .fresh))
            (matchDefault rule none (answered metadata response) .fresh).1 :=
          default_none_bounds side rfl ⟨settled, by simp [fresh]⟩ alone
        constructor
        · rintro ⟨⟩
        · exact fun hnot => absurd hbounds hnot
    | some item =>
      rw [default_some_bounds settled hunmixed (sets item rfl)]
      constructor
      · rintro ⟨hinverted, hloses⟩
        exact ⟨hinverted, hloses⟩
      · exact fun hlost => .default hlost.1 hlost.2
  | @logical mode invert rules _ ih =>
    cases hunmixed with
    | logical below =>
      rw [not_logical_bounds]
      constructor
      · intro hlogical
        cases hlogical with
        | @logical _ _ _ _ r mem lost beside => exact ⟨⟨r, mem, (ih r mem (below r mem)).mp lost⟩, beside⟩
      · rintro ⟨⟨r, hr, hnot⟩, hbeside⟩
        exact .logical hr ((ih r hr (below r hr)).mpr hnot) hbeside

end Bounds

def SkipSound (metadata : Metadata κ) (response : Option Msg) (r : Rule κ) : Prop :=
  let (matched, metadata, _) := r.legacyPreMatch metadata .fresh
  matched = false → r.matchAddressLimit metadata response = false

theorem skipSound_iff_bounds {metadata : Metadata κ} {response : Option Msg} {r : Rule κ} (h : r.WithoutResponse) :
    SkipSound metadata response r ↔ Bounds false (verdict (r.match (asked metadata) .fresh))
      (r.match (answered metadata response) .fresh).1 := by
  have hverdict : ∀ outcome : Bool × RuleCache, verdict outcome = .no ↔ outcome.1 = false := by
    rintro ⟨_ | _, cache⟩
    · simp [verdict]
    · simp [verdict, standing_true_ne_no]
  have hskip : SkipSound metadata response r ↔ ((r.match (asked metadata) .fresh).1 = false →
      (r.match (answered metadata response) .fresh).1 = false) := by
    cases h with
    | default settled sets => rw [Rule.match, Rule.match]; rfl
    | logical below => rfl
  rw [hskip, ← hverdict]
  rfl

theorem skipSound_iff_not_lost (r : Rule κ) (h : r.WithoutResponse) (hunmixed : r.Unmixed false)
    (metadata : Metadata κ) (response : Option Msg) :
    SkipSound metadata response r ↔ ¬r.Lost metadata response false := by
  rw [skipSound_iff_bounds h, h.lost_iff hunmixed, not_not]

section Example

def singleNet (addr : Addr) : Rule Unit := .default ⟨[], [], [], [], [.ipCIDR false (· = addr)], [], false⟩ none none

def domainWithNets (invert : Bool) : Rule Unit :=
  .default ⟨[], [], [], [.domain (· = "lookup.example")], [], [], invert⟩
    (some ⟨[[singleNet (.v4 0x01010101), singleNet (.v4 0x01010102)]], false, false⟩) none

def lookupQuery : Metadata Unit :=
  ⟨⟨none, "", 5353⟩, ⟨none, "", 53⟩, "lookup.example", [], none, fun _ => none, false, false, ()⟩

def elsewhere : Msg := ⟨rcodeSuccess, [.a (some (.v4 0x08080808))], [], []⟩

theorem singleNet_headless (addr : Addr) : (singleNet addr).Headless := by
  apply Headless.default
  constructor <;> simp [RuleItem.kind]

theorem singleNet_unmixed (source : Bool) (addr : Addr) : (singleNet addr).Unmixed source := by
  apply Unmixed.default
  · exact Or.inl rfl
  · simp
  · simp

theorem domainWithNets_withoutResponse (invert : Bool) : (domainWithNets invert).WithoutResponse := by
  apply WithoutResponse.default
  · constructor <;> simp [RuleItem.kind, ItemKind.settled]
  · intro item hitem
    cases hitem
    simp [singleNet_headless]

theorem domainWithNets_unmixed (invert : Bool) : (domainWithNets invert).Unmixed false := by
  apply Unmixed.default
  · exact Or.inr rfl
  · intro item hitem
    cases hitem
    simp [singleNet_unmixed]
  · intro item hitem
    cases hitem
    simp [IsOnly]

theorem skipSound_domainWithNets : SkipSound lookupQuery (some elsewhere) (domainWithNets false) := by
  rw [skipSound_iff_not_lost _ (domainWithNets_withoutResponse false) (domainWithNets_unmixed false)]
  intro hlost
  cases hlost with
  | default inverted _ => simp at inverted

theorem open_set_skipped : (domainWithNets true).WithoutResponse ∧ (domainWithNets true).Unmixed false ∧
    ((domainWithNets true).legacyPreMatch lookupQuery .fresh).1 = false ∧
    (domainWithNets true).matchAddressLimit ((domainWithNets true).legacyPreMatch lookupQuery .fresh).2.1
      (some elsewhere) = true := by
  refine ⟨domainWithNets_withoutResponse true, domainWithNets_unmixed true, ?_, ?_⟩
  · decide
  · decide

end Example

end Hydracore.Rules
