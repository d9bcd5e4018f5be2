import Hydracore.Rules.Congruence
import Hydracore.Systems.Related

namespace Hydracore.Rules

open Systems DefaultRule RuleItem Rule List

variable {κ : Type}

def Metadata.towards (metadata : Metadata κ) (destination : Socksaddr) (addresses : List Addr) : Metadata κ :=
  { metadata with destination := destination, destinationAddresses := addresses }

def IgnoresDestination (item : RuleSetItem (Rule κ)) : Prop :=
  ∀ metadata destination addresses cache,
    (item.match (metadata.towards destination addresses) cache).1 = (item.match metadata cache).1

inductive Rule.Each (p : DefaultRule κ → Prop) : Rule κ → Prop
  | default {rule : DefaultRule κ} {ruleSetItem : Option (RuleSetItem (Rule κ))} {matchResponse : Option String}
      (holds : p rule) : Each p (.default rule ruleSetItem matchResponse)
  | logical {mode : LogicalType} {invert : Bool} {rules : List (Rule κ)} (below : ∀ r ∈ rules, Each p r) :
      Each p (.logical mode invert rules)

def DefaultRule.OnlyIPCIDR (rule : DefaultRule κ) : Prop :=
  rule.destinationAddressItems = [] ∧ rule.destinationPortItems = []

def DefaultRule.NoIPCIDR (rule : DefaultRule κ) : Prop := rule.destinationIPCIDRItems = []

def Rule.Flat : Rule κ → Prop
  | .default _ _ _ => True
  | .logical _ _ rules => ∀ r ∈ rules, r.Each NoIPCIDR

section Unchanged

variable {metadata : Metadata κ} {destination : Socksaddr} {addresses : List Addr}

variable {cache : RuleCache}

theorem RuleItem.match_towards {item : RuleItem κ}
    (h : item.kind = .field ∨ item.kind = .ipCIDR true ∨ item.kind = .port true ∨
      (item.kind = .ipCIDR false ∧ cache.ipCIDRMatchSource = true)) :
    item.match (metadata.towards destination addresses) cache = item.match metadata cache := by
  cases item with
  | field test => rfl
  | ipCIDR isSource ipSet =>
    have hflag : (isSource || cache.ipCIDRMatchSource) = true := by
      simp only [kind, reduceCtorEq, ItemKind.ipCIDR.injEq, false_or] at h
      cases isSource <;> simp_all
    rw [RuleItem.match, RuleItem.match, if_pos hflag, if_pos hflag]
    rfl
  | port isSource test =>
    obtain rfl : isSource = true := by simpa [kind] using h
    rfl
  | domain | destination | ipIsPrivate | ipAcceptAny | response => simp [kind] at h

theorem matchDefault_towards {rule : DefaultRule κ} (h : rule.Headless) (honly : rule.OnlyIPCIDR)
    (hcidr : cache.ipCIDRMatchSource = true ∨ rule.NoIPCIDR) :
    matchDefault rule none (metadata.towards destination addresses) cache = matchDefault rule none metadata cache := by
  apply matchDefault_none_congr
  · rfl
  · intro item hitem
    apply match_towards
    simp only [allItems, honly.1, honly.2, List.append_nil, List.mem_append] at hitem
    obtain ((hitem | hitem) | hitem) | hitem := hitem
    · exact .inl (h.items item hitem)
    · exact .inr (.inl (h.sourceAddress item hitem))
    · exact .inr (.inr (.inl (h.sourcePort item hitem)))
    · cases hcidr with
      | inl hflag => exact .inr (.inr (.inr ⟨h.destinationIPCIDR item hitem, hflag⟩))
      | inr hnone => simp [show rule.destinationIPCIDRItems = [] from hnone] at hitem

theorem Rule.Headless.match_towards_of_noIPCIDR {r : Rule κ} (h : r.Headless) (honly : r.Each OnlyIPCIDR)
    (hnone : r.Each NoIPCIDR) :
    r.match (metadata.towards destination addresses) cache = r.match metadata cache := by
  induction h generalizing cache with
  | default built =>
    cases honly with
    | default honly =>
      cases hnone with
      | default hnone =>
        exact matchDefault_towards built honly (.inr hnone)
  | logical built ih =>
    cases honly with
    | logical honly =>
      cases hnone with
      | logical hnone => exact match_logical_congr fun r hr => ih r hr (honly r hr) (hnone r hr)

theorem Rule.Headless.match_towards_of_flat {r : Rule κ} (h : r.Headless) (honly : r.Each OnlyIPCIDR)
    (hflat : r.Flat) (hsource : cache.ipCIDRMatchSource = true) :
    r.match (metadata.towards destination addresses) cache = r.match metadata cache := by
  cases h with
  | default built =>
    cases honly with
    | default honly =>
      exact matchDefault_towards built honly (.inl hsource)
  | logical built =>
    cases honly with
    | logical honly =>
      exact match_logical_congr fun r hr => (built r hr).match_towards_of_noIPCIDR (honly r hr) (hflat r hr)

end Unchanged

def RuleSetItem.AllRules (item : RuleSetItem (Rule κ)) (p : Rule κ → Prop) : Prop :=
  ∀ set ∈ item.setList, ∀ r ∈ set, p r

theorem ignoresDestination_of_flat {item : RuleSetItem (Rule κ)} (hsource : item.ipCidrMatchSource = true)
    (hheadless : item.AllRules Headless) (honly : item.AllRules (Each OnlyIPCIDR))
    (hflat : item.AllRules Flat) : IgnoresDestination item := by
  intro metadata destination addresses cache
  simp only [RuleSetItem.match, matchRuleSet]
  apply Bool.eq_iff_iff.mpr
  simp only [List.any_eq_true]
  apply exists_congr
  intro set
  apply and_congr_right
  intro hset
  have hrules : ∀ r ∈ set, ∀ left : RuleCache, left.flags = item.prepareNestedMatch.flags →
      r.match (metadata.towards destination addresses) left = r.match metadata left := fun r hr left hleft =>
    (hheadless set hset r hr).match_towards_of_flat (honly set hset r hr) (hflat set hset r hr)
      ((Prod.ext_iff.mp hleft).1.trans hsource)
  rw [matchAnyHeadlessRule_congr hrules]

structure DefaultRule.SameShape (rule other : DefaultRule κ) : Prop where
  items : other.items.map RuleItem.kind = rule.items.map RuleItem.kind
  sourceAddress : other.sourceAddressItems.map RuleItem.kind = rule.sourceAddressItems.map RuleItem.kind
  sourcePort : other.sourcePortItems.map RuleItem.kind = rule.sourcePortItems.map RuleItem.kind
  destinationAddress :
    other.destinationAddressItems.map RuleItem.kind = rule.destinationAddressItems.map RuleItem.kind
  destinationIPCIDR : other.destinationIPCIDRItems.map RuleItem.kind = rule.destinationIPCIDRItems.map RuleItem.kind
  destinationPort : other.destinationPortItems.map RuleItem.kind = rule.destinationPortItems.map RuleItem.kind
  invert : other.invert = rule.invert

inductive Rule.SameShape : Rule κ → Rule κ → Prop
  | default {rule other : DefaultRule κ} (same : rule.SameShape other) :
      SameShape (.default rule none none) (.default other none none)
  | logical {mode : LogicalType} {invert : Bool} {rules others : List (Rule κ)}
      (below : List.Forall₂ SameShape rules others) : SameShape (.logical mode invert rules) (.logical mode invert others)

structure RuleSetItem.SameShape (item other : RuleSetItem (Rule κ)) : Prop where
  setList : List.Forall₂ (List.Forall₂ Rule.SameShape) item.setList other.setList
  ipCidrMatchSource : other.ipCidrMatchSource = item.ipCidrMatchSource
  ipCidrAcceptEmpty : other.ipCidrAcceptEmpty = item.ipCidrAcceptEmpty

inductive Rule.Valid : Rule κ → Prop
  | default {rule : DefaultRule κ} {ruleSetItem : Option (RuleSetItem (Rule κ))} {matchResponse : Option String}
      (some : rule.allItems ≠ []) : Valid (.default rule ruleSetItem matchResponse)
  | logical {mode : LogicalType} {invert : Bool} {rules : List (Rule κ)} (some : rules ≠ [])
      (below : ∀ r ∈ rules, Valid r) : Valid (.logical mode invert rules)

section Transfer

variable {items others : List (RuleItem κ)}

theorem forall_kind_of_map_eq {kind : ItemKind}
    (h : others.map RuleItem.kind = items.map RuleItem.kind) (hitems : ∀ item ∈ items, item.kind = kind) :
    ∀ item ∈ others, item.kind = kind := by
  intro item hitem
  have hmem : item.kind ∈ items.map RuleItem.kind := h ▸ mem_map_of_mem hitem
  obtain ⟨origin, horigin, hkind⟩ := mem_map.mp hmem
  rw [← hkind, hitems origin horigin]

variable {rule other : DefaultRule κ}

theorem DefaultRule.SameShape.headless (h : rule.SameShape other) (hrule : rule.Headless) : other.Headless where
  items := forall_kind_of_map_eq h.items hrule.items
  sourceAddress := forall_kind_of_map_eq h.sourceAddress hrule.sourceAddress
  sourcePort := forall_kind_of_map_eq h.sourcePort hrule.sourcePort
  destinationAddress := forall_kind_of_map_eq h.destinationAddress hrule.destinationAddress
  destinationIPCIDR := forall_kind_of_map_eq h.destinationIPCIDR hrule.destinationIPCIDR
  destinationPort := forall_kind_of_map_eq h.destinationPort hrule.destinationPort

theorem nil_of_map_eq (h : others.map RuleItem.kind = items.map RuleItem.kind)
    (hitems : items = []) : others = [] := by
  rw [hitems] at h
  exact map_eq_nil_iff.mp h

variable {r other : Rule κ}

theorem Rule.SameShape.headless (h : r.SameShape other) (hr : r.Headless) : other.Headless := by
  induction hr generalizing other with
  | default built =>
    cases h with
    | default same => exact .default (same.headless built)
  | logical built ih =>
    cases h with
    | logical below => exact .logical (forall_mem_of_related below fun r hr other hother => ih r hr hother)

theorem Rule.SameShape.each {p : DefaultRule κ → Prop} (hp : ∀ {rule other}, rule.SameShape other → p rule → p other)
    (h : r.SameShape other) (hr : r.Each p) : other.Each p := by
  induction hr generalizing other with
  | default holds =>
    cases h with
    | default same => exact .default (hp same holds)
  | logical below ih =>
    cases h with
    | logical shapes => exact .logical (forall_mem_of_related shapes fun r hr other hother => ih r hr hother)

theorem Rule.SameShape.flat (h : r.SameShape other) (hr : r.Flat) : other.Flat := by
  cases h with
  | default same => trivial
  | logical below =>
    exact forall_mem_of_related below fun r hmem other hother => hother.each (fun h => nil_of_map_eq h.destinationIPCIDR) (hr r hmem)

theorem RuleSetItem.SameShape.allRules {p : Rule κ → Prop} (hp : ∀ {r other : Rule κ}, r.SameShape other → p r → p other)
    {item other : RuleSetItem (Rule κ)} (h : item.SameShape other) (hitem : item.AllRules p) : other.AllRules p :=
  forall_mem_of_related h.setList fun set hset _ hshape =>
    forall_mem_of_related hshape fun r hr _ hother => hp hother (hitem set hset r hr)

end Transfer

section Refill

def RuleItem.refill (b : Bool) (ipSet : Addr → Bool) : RuleItem κ → RuleItem κ
  | .field _ => .field fun _ => b
  | .domain _ => .domain fun _ => b
  | .port isSource _ => .port isSource fun _ => b
  | .ipCIDR true _ => .ipCIDR true fun _ => b
  | .ipCIDR false _ => .ipCIDR false ipSet
  | item => item

@[simp] theorem RuleItem.kind_refill (b : Bool) (ipSet : Addr → Bool) (item : RuleItem κ) :
    (item.refill b ipSet).kind = item.kind := by
  cases item with
  | ipCIDR isSource _ => cases isSource <;> rfl
  | _ => rfl

def DefaultRule.refill (b : Bool) (ipSet : Addr → Bool) (rule : DefaultRule κ) : DefaultRule κ where
  items := rule.items.map (RuleItem.refill b ipSet)
  sourceAddressItems := rule.sourceAddressItems.map (RuleItem.refill b ipSet)
  sourcePortItems := rule.sourcePortItems.map (RuleItem.refill b ipSet)
  destinationAddressItems := rule.destinationAddressItems.map (RuleItem.refill b ipSet)
  destinationIPCIDRItems := rule.destinationIPCIDRItems.map (RuleItem.refill b ipSet)
  destinationPortItems := rule.destinationPortItems.map (RuleItem.refill b ipSet)
  invert := rule.invert

theorem DefaultRule.sameShape_refill (b : Bool) (ipSet : Addr → Bool) (rule : DefaultRule κ) :
    rule.SameShape (rule.refill b ipSet) := by
  constructor <;> simp [refill, Function.comp_def]

theorem DefaultRule.allItems_refill (b : Bool) (ipSet : Addr → Bool) (rule : DefaultRule κ) :
    (rule.refill b ipSet).allItems = rule.allItems.map (RuleItem.refill b ipSet) := by
  simp [allItems, refill]

variable {rule : DefaultRule κ} {item : RuleItem κ} {addr : Addr} {cache : RuleCache}

theorem DefaultRule.Headless.kinds (h : rule.Headless) (honly : rule.OnlyIPCIDR) (hitem : item ∈ rule.allItems) :
    (item.kind = .field ∨ item.kind = .ipCIDR true ∨ item.kind = .port true) ∨ item.kind = .ipCIDR false := by
  simp only [allItems, honly.1, honly.2, append_nil, mem_append] at hitem
  rcases hitem with ((hitem | hitem) | hitem) | hitem
  · exact .inl (.inl (h.items item hitem))
  · exact .inl (.inr (.inl (h.sourceAddress item hitem)))
  · exact .inl (.inr (.inr (h.sourcePort item hitem)))
  · exact .inr (h.destinationIPCIDR item hitem)

theorem isEmpty_eq_false_of_ne {items : List (RuleItem κ)} (h : items ≠ []) : items.isEmpty = false := by
  simpa using h

variable [Inhabited κ]

def probe (addr : Addr) : Metadata κ :=
  ⟨⟨some (.v4 0), "", 0⟩, ⟨some addr, "", 0⟩, "", [], none, fun _ => none, false, false, default⟩

theorem RuleItem.match_refill {b : Bool} {ipSet : Addr → Bool}
    (h : item.kind = .field ∨ item.kind = .ipCIDR true ∨ item.kind = .port true) :
    (item.refill b ipSet).match (probe addr) cache = b := by
  cases item with
  | ipCIDR isSource _ => cases isSource <;> simp_all [RuleItem.kind, RuleItem.refill, RuleItem.match, probe]
  | _ => simp_all [RuleItem.kind, RuleItem.refill, RuleItem.match]

theorem RuleItem.match_refill_ipCIDR {b : Bool} {ipSet : Addr → Bool} (h : item.kind = .ipCIDR false) :
    (item.refill b ipSet).match (probe addr) cache =
      if cache.ipCIDRMatchSource then ipSet (.v4 0) else ipSet addr := by
  cases item with
  | ipCIDR isSource _ =>
    obtain rfl : isSource = false := by simpa [RuleItem.kind] using h
    simp [RuleItem.refill, RuleItem.match, matchIPCIDR, probe]
  | _ => simp [RuleItem.kind] at h

theorem DefaultRule.mem_allItems_iff (addr : Addr) (cache : RuleCache) :
    item ∈ rule.allItems ↔ item ∈ rule.items ∨ ∃ group, item ∈ rule.groupItems (probe addr) cache group := by
  constructor
  · intro h
    simp only [allItems, mem_append] at h
    rcases h with ((((h | h) | h) | h) | h) | h
    · exact .inl h
    · exact .inr ⟨.sourceAddress, mem_append_left _ h⟩
    · exact .inr ⟨.sourcePort, h⟩
    · exact .inr ⟨.destinationAddress, mem_append_left _ h⟩
    · cases hsource : cache.ipCIDRMatchSource with
      | true => exact .inr ⟨.sourceAddress, by simp [groupItems, hsource, h]⟩
      | false => exact .inr ⟨.destinationAddress, by simp [groupItems, hsource, h, probe]⟩
    · exact .inr ⟨.destinationPort, h⟩
  · rintro (h | ⟨group, h⟩)
    · simp [allItems, h]
    · cases group with
      | sourceAddress | destinationAddress =>
        simp only [groupItems, mem_append] at h
        split_ifs at h <;> cases h <;> simp_all [allItems]
      | sourcePort => simp [allItems, show item ∈ rule.sourcePortItems from h]
      | destinationPort => simp [allItems, show item ∈ rule.destinationPortItems from h]

theorem DefaultRule.holds_of_all (h : ∀ item ∈ rule.allItems, item.match (probe addr) cache = true) :
    (rule.itemsMatch (probe addr) cache && (rule.evaluateGroups (probe addr) cache).1.done) = true := by
  rw [Bool.and_eq_true, evaluateGroups_done, itemsMatch, all_eq_true]
  constructor
  · exact fun item hitem => h item ((mem_allItems_iff addr cache).mpr (.inl hitem))
  · intro group hgroup
    obtain ⟨item, hitem⟩ := exists_mem_of_ne_nil _ hgroup
    exact any_eq_true.mpr ⟨item, hitem, h item ((mem_allItems_iff addr cache).mpr (.inr ⟨group, hitem⟩))⟩

theorem DefaultRule.fails_of_group {group : Group} (hne : rule.groupItems (probe addr) cache group ≠ [])
    (h : ∀ item ∈ rule.groupItems (probe addr) cache group, item.match (probe addr) cache = false) :
    (rule.itemsMatch (probe addr) cache && (rule.evaluateGroups (probe addr) cache).1.done) = false := by
  apply Bool.eq_false_of_not_eq_true
  rw [Bool.and_eq_true, evaluateGroups_done]
  rintro ⟨-, hgroups⟩
  obtain ⟨item, hitem, hmatch⟩ := any_eq_true.mp (hgroups group hne)
  rw [h item hitem] at hmatch
  cases hmatch

theorem DefaultRule.fails_of_none (hne : rule.allItems ≠ [])
    (h : ∀ item ∈ rule.allItems, item.match (probe addr) cache = false) :
    (rule.itemsMatch (probe addr) cache && (rule.evaluateGroups (probe addr) cache).1.done) = false := by
  obtain ⟨item, hitem⟩ := exists_mem_of_ne_nil _ hne
  have hfalse := h item hitem
  cases (mem_allItems_iff addr cache).mp hitem with
  | inl hitems =>
    rw [Bool.and_eq_false_iff]
    exact .inl (all_eq_false.mpr ⟨item, hitems, by simp [hfalse]⟩)
  | inr hgroup =>
    obtain ⟨group, hgroup⟩ := hgroup
    exact fails_of_group (ne_nil_of_mem hgroup)
      fun other hother => h other ((mem_allItems_iff addr cache).mpr (.inr ⟨group, hother⟩))

theorem matchDefault_constant (h : rule.Headless) (honly : rule.OnlyIPCIDR)
    (hne : rule.allItems ≠ []) (b : Bool) (addr : Addr) (hcache : cache.deferredIPCIDRMatchGroups = ∅) :
    (matchDefault (rule.refill b fun _ => b) none (probe addr) cache).1 = (b ^^ rule.invert) := by
  have hrefill : (rule.refill b fun _ => b).allItems ≠ [] := by
    simpa [allItems_refill] using hne
  have hitems : ∀ item ∈ (rule.refill b fun _ => b).allItems, item.match (probe addr) cache = b := by
    rw [allItems_refill, forall_mem_map]
    intro item hitem
    cases h.kinds honly hitem with
    | inl hkind => exact RuleItem.match_refill hkind
    | inr hkind => rw [RuleItem.match_refill_ipCIDR hkind, ite_self]
  rw [matchDefault_none_fst rfl hcache _ (isEmpty_eq_false_of_ne hrefill)]
  cases b with
  | false => rw [fails_of_none hrefill hitems]; rfl
  | true => rw [holds_of_all hitems]; rfl

theorem matchDefault_aimed (h : rule.Headless) (honly : rule.OnlyIPCIDR)
    (hcidr : rule.destinationIPCIDRItems ≠ []) (target addr : Addr) :
    (matchDefault (rule.refill true (· = target)) none (probe addr) .fresh).1 = (decide (addr = target) ^^ rule.invert) := by
  have hne : (rule.refill true (· = target)).allItems ≠ [] := by
    obtain ⟨item, hitem⟩ := exists_mem_of_ne_nil _ hcidr
    have hmem : item ∈ rule.allItems := by simp [allItems, hitem]
    rw [allItems_refill]
    exact ne_nil_of_mem (mem_map_of_mem hmem)
  rw [matchDefault_none_fst rfl rfl _ (isEmpty_eq_false_of_ne hne)]
  by_cases haddr : addr = target
  · rw [holds_of_all]
    · simp [haddr, DefaultRule.refill]
    · rw [allItems_refill, forall_mem_map]
      intro item hitem
      cases h.kinds honly hitem with
      | inl hkind => exact RuleItem.match_refill hkind
      | inr hkind => simp [RuleItem.match_refill_ipCIDR hkind, RuleCache.fresh, haddr]
  · have hgroup : (rule.refill true (· = target)).groupItems (probe addr) .fresh .destinationAddress =
        rule.destinationIPCIDRItems.map (RuleItem.refill true (· = target)) := by
      simp [groupItems, DefaultRule.refill, honly.1, probe, RuleCache.fresh]
    have hne' : (rule.refill true (· = target)).groupItems (probe addr) .fresh .destinationAddress ≠ [] := by
      simpa [hgroup] using hcidr
    rw [fails_of_group hne']
    · simp [haddr, DefaultRule.refill]
    · rw [hgroup, forall_mem_map]
      intro item hitem
      simp [RuleItem.match_refill_ipCIDR (h.destinationIPCIDR item hitem), RuleCache.fresh, haddr]

theorem Rule.Headless.exists_constant {r : Rule κ} (h : r.Headless) (honly : r.Each OnlyIPCIDR)
    (hvalid : r.Valid) (b : Bool) : ∃ other, r.SameShape other ∧ ∀ addr (cache : RuleCache),
      cache.deferredIPCIDRMatchGroups = ∅ → (other.match (probe addr) cache).1 = b := by
  induction h generalizing b with
  | @default rule built =>
    cases honly with
    | default honly =>
      cases hvalid with
      | default hne =>
        refine ⟨_, .default (rule.sameShape_refill (b ^^ rule.invert) fun _ => b ^^ rule.invert), ?_⟩
        intro addr cache hcache
        rw [Rule.match, matchDefault_constant built honly hne _ addr hcache]
        simp
  | @logical mode invert rules built ih =>
    cases honly with
    | logical honly =>
      cases hvalid with
      | logical hne hbelow =>
        obtain ⟨others, hshape, hconstant⟩ := exists_related fun r hr =>
          ih r hr (honly r hr) (hbelow r hr) (b ^^ invert)
        refine ⟨_, .logical hshape, ?_⟩
        intro addr cache hcache
        have hothers : ∀ other ∈ others, (other.match (probe addr) .fresh).1 = (b ^^ invert) :=
          fun other hother => hconstant other hother addr .fresh rfl
        have hsome : others ≠ [] := by
          rw [ne_eq, ← length_eq_zero_iff, ← hshape.length_eq, length_eq_zero_iff]
          exact hne
        rw [match_logical_fst rfl hcache mode invert others]
        cases mode with
        | and => rw [all_of_constant hsome hothers, Bool.xor_assoc, Bool.xor_self, Bool.xor_false]
        | or => rw [any_of_constant hsome hothers, Bool.xor_assoc, Bool.xor_self, Bool.xor_false]

variable {near far : Addr}

theorem exists_logical_sensitive (mode : LogicalType) (invert : Bool) {rules : List (Rule κ)}
    {r : Rule κ} (hr : r ∈ rules) (hheadless : ∀ r ∈ rules, r.Headless)
    (honly : ∀ r ∈ rules, r.Each OnlyIPCIDR) (hvalid : ∀ r ∈ rules, r.Valid)
    (hsensitive : ∃ other, r.SameShape other ∧
      (other.match (probe near) .fresh).1 ≠ (other.match (probe far) .fresh).1) :
    ∃ other, (logical mode invert rules).SameShape other ∧ ∀ cache : RuleCache,
      cache.deferredIPCIDRMatchGroups = ∅ → (other.match (probe near) cache).1 ≠ (other.match (probe far) cache).1 := by
  obtain ⟨before, chosen, after, hshape, hchosen, hothers⟩ := exists_related_at hr hsensitive fun r hr =>
    (hheadless r hr).exists_constant (honly r hr) (hvalid r hr) (mode = .and)
  refine ⟨_, .logical hshape, ?_⟩
  intro cache hcache
  rw [match_logical_fst rfl hcache mode invert _, match_logical_fst rfl hcache mode invert _]
  cases mode with
  | and =>
    rw [all_of_others fun other hother => hothers other hother near .fresh rfl,
      all_of_others fun other hother => hothers other hother far .fresh rfl]
    simpa using hchosen
  | or =>
    rw [any_of_others fun other hother => hothers other hother near .fresh rfl,
      any_of_others fun other hother => hothers other hother far .fresh rfl]
    simpa using hchosen

theorem Rule.Headless.exists_sensitive {r : Rule κ} (h : r.Headless) (honly : r.Each OnlyIPCIDR)
    (hvalid : r.Valid) (hcidr : ¬r.Each NoIPCIDR) (hdistinct : far ≠ near) :
    ∃ other, r.SameShape other ∧ (other.match (probe near) .fresh).1 ≠ (other.match (probe far) .fresh).1 := by
  induction h with
  | @default rule built =>
    cases honly with
    | default honly =>
      refine ⟨_, .default (rule.sameShape_refill true (· = near)), ?_⟩
      have hsome : rule.destinationIPCIDRItems ≠ [] := fun hnone => hcidr (.default hnone)
      rw [Rule.match, Rule.match, matchDefault_aimed built honly hsome, matchDefault_aimed built honly hsome]
      simp [hdistinct]
  | @logical mode invert rules built ih =>
    cases honly with
    | logical honly =>
      cases hvalid with
      | logical hne hbelow =>
        have hdeep : ∃ r ∈ rules, ¬r.Each NoIPCIDR := by
          by_contra hnone
          push Not at hnone
          exact hcidr (.logical hnone)
        obtain ⟨r, hr, hcidr⟩ := hdeep
        obtain ⟨other, hshape, hne⟩ := exists_logical_sensitive mode invert hr built honly hbelow
          (ih r hr (honly r hr) (hbelow r hr) hcidr)
        exact ⟨other, hshape, hne .fresh rfl⟩

theorem matchRuleSet_probe (set : List (Rule κ)) (addr : Addr) (hcache : cache.deferredIPCIDRMatchGroups = ∅) :
    (matchRuleSet set (probe addr) cache).1 = set.any fun r => (r.match (probe addr) cache).1 := by
  have hverdict := matchRuleSet_fst (rfl : (probe addr : Metadata κ).ignoreDestinationIPCIDRMatch = false) set hcache
  have hne : verdict (matchRuleSet set (probe addr) cache) ≠ .unknown := by
    rw [hverdict]
    exact Kleene.ofBool_ne_unknown _
  rw [verdict_eq_ofBool hne] at hverdict
  exact Kleene.ofBool_inj.mp hverdict

theorem exists_item_sensitive {item : RuleSetItem (Rule κ)} (hheadless : item.AllRules Headless)
    (honly : item.AllRules (Rule.Each OnlyIPCIDR)) (hvalid : item.AllRules Rule.Valid)
    (hdeep : ¬item.AllRules Rule.Flat) (hdistinct : far ≠ near) :
    ∃ other, item.SameShape other ∧ ∀ cache, (other.match (probe near) cache).1 ≠ (other.match (probe far) cache).1 := by
  simp only [RuleSetItem.AllRules] at hdeep
  push Not at hdeep
  obtain ⟨set, hset, r, hr, hnot⟩ := hdeep
  let nested := item.prepareNestedMatch
  -- the rule with the deep condition decides, every other rule of every set never matches
  have hrule : ∃ other, r.SameShape other ∧ (other.match (probe near) nested).1 ≠ (other.match (probe far) nested).1 := by
    have hr_headless := hheadless set hset r hr
    have hr_only := honly set hset r hr
    have hr_valid := hvalid set hset r hr
    cases hr_headless with
    | default built => exact absurd trivial hnot
    | @logical mode invert rules built =>
      cases hr_only with
      | logical honly =>
        cases hr_valid with
        | logical _ hvalid =>
          simp only [Rule.Flat] at hnot
          push Not at hnot
          obtain ⟨child, hchild, hcidr⟩ := hnot
          obtain ⟨other, hshape, hother⟩ := exists_logical_sensitive mode invert hchild built honly hvalid
            ((built child hchild).exists_sensitive (honly child hchild) (hvalid child hchild) hcidr hdistinct)
          exact ⟨other, hshape, hother nested rfl⟩
  have hsilent : ∀ set ∈ item.setList, ∀ r ∈ set, ∃ other, r.SameShape other ∧
      ∀ addr (cache : RuleCache), cache.deferredIPCIDRMatchGroups = ∅ → (other.match (probe addr) cache).1 = false :=
    fun set hset r hr => (hheadless set hset r hr).exists_constant (honly set hset r hr) (hvalid set hset r hr) false
  have hset_sensitive : ∃ other, Forall₂ Rule.SameShape set other ∧
      (matchRuleSet other (probe near) nested).1 ≠ (matchRuleSet other (probe far) nested).1 := by
    obtain ⟨before, chosen, after, hshape, hchosen, hothers⟩ := exists_related_at hr hrule (hsilent set hset)
    refine ⟨_, hshape, ?_⟩
    rw [matchRuleSet_probe _ _ rfl, matchRuleSet_probe _ _ rfl,
      any_of_others fun other hother => hothers other hother near nested rfl,
      any_of_others fun other hother => hothers other hother far nested rfl]
    exact hchosen
  have hsets_silent : ∀ set ∈ item.setList, ∃ other, Forall₂ Rule.SameShape set other ∧
      ∀ addr, (matchRuleSet other (probe addr) nested).1 = false := by
    intro set hset
    obtain ⟨others, hshape, hconstant⟩ := exists_related (hsilent set hset)
    refine ⟨others, hshape, ?_⟩
    intro addr
    rw [matchRuleSet_probe _ _ rfl, any_eq_false]
    exact fun other hother => by simp [hconstant other hother addr nested rfl]
  obtain ⟨before, chosen, after, hshape, hchosen, hothers⟩ := exists_related_at hset hset_sensitive hsets_silent
  refine ⟨⟨before ++ chosen :: after, item.ipCidrMatchSource, item.ipCidrAcceptEmpty⟩, ⟨hshape, rfl, rfl⟩, ?_⟩
  intro cache
  have hany : ∀ addr, (before ++ chosen :: after).any (fun set => (matchRuleSet set (probe addr) nested).1) =
      (matchRuleSet chosen (probe addr) nested).1 :=
    fun addr => any_of_others fun other hother => hothers other hother addr
  exact fun hsame => hchosen ((hany near).symm.trans (hsame.trans (hany far)))

end Refill

theorem ignoresDestination_iff_flat [Inhabited κ] (item : RuleSetItem (Rule κ))
    (hsource : item.ipCidrMatchSource = true) (hheadless : item.AllRules Headless)
    (honly : item.AllRules (Each OnlyIPCIDR)) (hvalid : item.AllRules Valid) :
    (∀ other, item.SameShape other → IgnoresDestination other) ↔ item.AllRules Flat := by
  constructor
  · intro hignores
    by_contra hdeep
    obtain ⟨other, hshape, hne⟩ := exists_item_sensitive hheadless honly hvalid hdeep
      (show Addr.v4 1 ≠ Addr.v4 2 by decide)
    exact hne .fresh (hignores other hshape (probe (.v4 1)) ⟨some (.v4 2), "", 0⟩ [] .fresh)
  · intro hflat other hshape
    apply ignoresDestination_of_flat
    · rw [hshape.ipCidrMatchSource, hsource]
    · exact hshape.allRules SameShape.headless hheadless
    · exact hshape.allRules (SameShape.each fun h hrule =>
        ⟨nil_of_map_eq h.destinationAddress hrule.1, nil_of_map_eq h.destinationPort hrule.2⟩) honly
    · exact hshape.allRules SameShape.flat hflat

section Example

def sourceNet : DefaultRule Unit := ⟨[], [], [], [], [.ipCIDR false (· = .v4 0x0a000001)], [], false⟩

def sourceNets (deep : Bool) : RuleSetItem (Rule Unit) :=
  ⟨[[if deep then .logical .or false [.default sourceNet none none] else .default sourceNet none none]], true, false⟩

theorem sourceNets_allRules {p : Rule Unit → Prop} (hflat : p (.default sourceNet none none))
    (hdeep : p (.logical .or false [.default sourceNet none none])) (deep : Bool) : (sourceNets deep).AllRules p := by
  cases deep <;> simpa [sourceNets, RuleSetItem.AllRules]

theorem sourceNet_headless : (default sourceNet none none).Headless := by
  apply Headless.default
  constructor <;> simp [sourceNet, RuleItem.kind]

theorem sourceNets_headless : ∀ deep, (sourceNets deep).AllRules Headless :=
  sourceNets_allRules sourceNet_headless (.logical (by simp [sourceNet_headless]))

theorem sourceNets_onlyIPCIDR : ∀ deep, (sourceNets deep).AllRules (Each OnlyIPCIDR) :=
  sourceNets_allRules (.default ⟨rfl, rfl⟩) (.logical (by simpa using .default ⟨rfl, rfl⟩))

theorem sourceNets_valid : ∀ deep, (sourceNets deep).AllRules Valid :=
  sourceNets_allRules (.default (by simp [sourceNet, allItems]))
    (.logical nofun (by simpa using .default (by simp [sourceNet, allItems])))

theorem sourceNets_sameShape : (sourceNets false).SameShape (sourceNets false) := by
  refine ⟨?_, rfl, rfl⟩
  exact .cons (.cons (.default ⟨rfl, rfl, rfl, rfl, rfl, rfl, rfl⟩) .nil) .nil

theorem ignoresDestination_sourceNets : IgnoresDestination (sourceNets false) := by
  have hflat : (sourceNets false).AllRules Flat := by simp [sourceNets, RuleSetItem.AllRules, Flat]
  exact (ignoresDestination_iff_flat (sourceNets false) rfl (sourceNets_headless false) (sourceNets_onlyIPCIDR false)
    (sourceNets_valid false)).mpr hflat _ sourceNets_sameShape

theorem nested_ip_cidr_follows_destination :
    (sourceNets true).ipCidrMatchSource = true ∧ (sourceNets true).AllRules Headless ∧
    (sourceNets true).AllRules (Each OnlyIPCIDR) ∧ ¬IgnoresDestination (sourceNets true) := by
  refine ⟨rfl, sourceNets_headless true, sourceNets_onlyIPCIDR true, ?_⟩
  intro hignores
  have hsame := hignores (probe (.v4 0x0a000001)) ⟨some (.v4 0x0a000002), "", 0⟩ [] .fresh
  revert hsame
  decide

end Example

end Hydracore.Rules
