import Hydracore.Rules.Headless

namespace Hydracore.Rules

open RuleItem

variable {κ : Type}

def asked (metadata : Metadata κ) : Metadata κ := { metadata with ignoreDestinationIPCIDRMatch := true }

def answered (metadata : Metadata κ) (response : Option Msg) : Metadata κ :=
  { metadata with ignoreDestinationIPCIDRMatch := false }.fromResponse response

section Items

variable {metadata : Metadata κ} {response : Option Msg} {cache : RuleCache} {item : RuleItem κ}

theorem RuleItem.match_asked_of_settled (h : item.kind.settled = true) :
    item.match (asked metadata) cache = item.match (answered metadata response) cache := by
  cases item with
  | field | domain | port | destination => rfl
  | ipCIDR isSource ipSet | ipIsPrivate isSource isPublicAddr =>
    obtain rfl : isSource = true := h
    rfl
  | ipAcceptAny | response test => cases h

theorem RuleItem.match_asked_of_source (h : item.kind = .ipCIDR false) (hsource : cache.ipCIDRMatchSource = true) :
    item.match (asked metadata) cache = item.match (answered metadata response) cache := by
  cases item <;> simp_all [RuleItem.kind, RuleItem.match, asked, answered, Metadata.fromResponse]

end Items

namespace DefaultRule

def lookupItems (rule : DefaultRule κ) (source : Bool) : List (RuleItem κ) :=
  if source then [] else rule.destinationIPCIDRItems

structure Steady (rule : DefaultRule κ) (source : Bool) : Prop where
  settled : rule.Settled
  source : source = true → ∀ item ∈ rule.destinationIPCIDRItems, item.kind = .ipCIDR false

section Groups

variable {rule : DefaultRule κ} {metadata : Metadata κ} {response : Option Msg} {cache : RuleCache}

theorem itemsMatch_asked (h : rule.Settled) :
    rule.itemsMatch (asked metadata) cache = rule.itemsMatch (answered metadata response) cache := by
  apply Bool.eq_iff_iff.mpr
  simp only [itemsMatch, List.all_eq_true]
  apply forall₂_congr
  intro item hitem
  rw [match_asked_of_settled (h.items item hitem)]

theorem constrains_asked {group : Group} (hgroup : group ≠ .destinationAddress) :
    rule.Constrains (asked metadata) cache group ↔ rule.Constrains (answered metadata response) cache group := by
  cases group <;> first | rfl | contradiction

theorem satisfies_asked (h : rule.Steady cache.ipCIDRMatchSource) {group : Group}
    (hgroup : group ≠ .destinationAddress) :
    rule.Satisfies (asked metadata) cache group ↔ rule.Satisfies (answered metadata response) cache group := by
  have hitems : ∀ item ∈ rule.groupItems (asked metadata) cache group,
      item.match (asked metadata) cache = item.match (answered metadata response) cache := by
    intro item hitem
    cases group with
    | sourceAddress =>
      simp only [groupItems, List.mem_append] at hitem
      cases hitem with
      | inl hmem => exact match_asked_of_settled (h.settled.sourceAddress item hmem)
      | inr hmem =>
        split_ifs at hmem with hsource
        · exact match_asked_of_source (h.source hsource item hmem) hsource
        · simp at hmem
    | sourcePort => exact match_asked_of_settled (h.settled.sourcePort item hitem)
    | destinationAddress => contradiction
    | destinationPort => exact match_asked_of_settled (h.settled.destinationPort item hitem)
  have hsame : rule.groupItems (asked metadata) cache group = rule.groupItems (answered metadata response) cache group := by
    cases group <;> first | rfl | contradiction
  rw [Satisfies, Satisfies, matchAnyItem_congr hitems, hsame]

theorem groupItems_asked_destination :
    rule.groupItems (asked metadata) cache .destinationAddress = rule.destinationAddressItems := by
  simp [groupItems, asked]

theorem groupItems_answered_destination : rule.groupItems (answered metadata response) cache .destinationAddress =
    rule.destinationAddressItems ++ rule.lookupItems cache.ipCIDRMatchSource := by
  cases h : cache.ipCIDRMatchSource <;> simp [groupItems, answered, Metadata.fromResponse, lookupItems, h]

theorem constrains_destination : rule.Constrains (asked metadata) cache .destinationAddress ↔
    rule.destinationAddressItems ≠ [] := by
  rw [Constrains, groupItems_asked_destination]

theorem satisfies_destination : rule.Satisfies (asked metadata) cache .destinationAddress ↔
    ∃ item ∈ rule.destinationAddressItems, item.match (asked metadata) cache = true := by
  rw [Satisfies, groupItems_asked_destination]
  simp [matchAnyItem]

theorem evaluateGroups_asked (h : rule.Steady cache.ipCIDRMatchSource)
    (hlookup : rule.lookupItems cache.ipCIDRMatchSource = []) :
    (rule.evaluateGroups (asked metadata) cache).1 = (rule.evaluateGroups (answered metadata response) cache).1 := by
  have hdestination : rule.groupItems (asked metadata) cache .destinationAddress =
      rule.groupItems (answered metadata response) cache .destinationAddress := by
    rw [groupItems_asked_destination, groupItems_answered_destination, hlookup, List.append_nil]
  have hitems : matchAnyItem (rule.groupItems (asked metadata) cache .destinationAddress) (asked metadata) cache =
      matchAnyItem (rule.groupItems (asked metadata) cache .destinationAddress) (answered metadata response) cache := by
    rw [groupItems_asked_destination]
    exact matchAnyItem_congr fun item hitem =>
      match_asked_of_settled (h.settled.destinationAddress item hitem)
  ext group
  · rw [mem_required, mem_required]
    by_cases hgroup : group = .destinationAddress
    · rw [hgroup, Constrains, Constrains, hdestination]
    · exact constrains_asked hgroup
  · rw [mem_satisfied, mem_satisfied]
    by_cases hgroup : group = .destinationAddress
    · rw [hgroup, Satisfies, Satisfies, hitems, hdestination]
    · exact satisfies_asked h hgroup

theorem deferral_asked_of_lookup (hlookup : rule.lookupItems cache.ipCIDRMatchSource ≠ [])
    (haddress : rule.destinationAddressItems = []) :
    rule.deferral (asked metadata) cache = {.destinationAddress} := by
  cases hsource : cache.ipCIDRMatchSource <;> simp_all [lookupItems, deferral, asked]

theorem deferral_asked_of_no_lookup (hlookup : rule.lookupItems cache.ipCIDRMatchSource = []) :
    rule.deferral (asked metadata) cache = ∅ := by
  cases hsource : cache.ipCIDRMatchSource <;> simp_all [lookupItems, deferral]

theorem not_mem_satisfied_of_no_address (haddress : rule.destinationAddressItems = []) :
    .destinationAddress ∉ (rule.evaluateGroups (asked metadata) cache).1.satisfied := by
  rw [mem_satisfied, Satisfies, groupItems_asked_destination, haddress]
  simp

end Groups

end DefaultRule

end Hydracore.Rules
