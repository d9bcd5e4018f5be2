import Hydracore.Rules.Merging

namespace Hydracore.Rules

variable {κ : Type}

inductive ItemKind where
  | field
  | domain
  | port (isSource : Bool)
  | destination
  | ipCIDR (isSource : Bool)
  | ipIsPrivate (isSource : Bool)
  | ipAcceptAny
  | response
  deriving DecidableEq

def RuleItem.kind : RuleItem κ → ItemKind
  | .field _ => .field
  | .domain _ => .domain
  | .port isSource _ => .port isSource
  | .destination _ => .destination
  | .ipCIDR isSource _ => .ipCIDR isSource
  | .ipIsPrivate isSource _ => .ipIsPrivate isSource
  | .ipAcceptAny => .ipAcceptAny
  | .response _ => .response

def ItemKind.settled : ItemKind → Bool
  | .field | .domain | .port _ | .destination => true
  | .ipCIDR isSource | .ipIsPrivate isSource => isSource
  | .ipAcceptAny | .response => false

namespace DefaultRule

structure Settled (rule : DefaultRule κ) : Prop where
  items : ∀ item ∈ rule.items, item.kind.settled = true
  sourceAddress : ∀ item ∈ rule.sourceAddressItems, item.kind.settled = true
  sourcePort : ∀ item ∈ rule.sourcePortItems, item.kind.settled = true
  destinationAddress : ∀ item ∈ rule.destinationAddressItems, item.kind.settled = true
  destinationPort : ∀ item ∈ rule.destinationPortItems, item.kind.settled = true

structure Headless (rule : DefaultRule κ) : Prop where
  items : ∀ item ∈ rule.items, item.kind = .field
  sourceAddress : ∀ item ∈ rule.sourceAddressItems, item.kind = .ipCIDR true
  sourcePort : ∀ item ∈ rule.sourcePortItems, item.kind = .port true
  destinationAddress : ∀ item ∈ rule.destinationAddressItems, item.kind = .domain
  destinationIPCIDR : ∀ item ∈ rule.destinationIPCIDRItems, item.kind = .ipCIDR false
  destinationPort : ∀ item ∈ rule.destinationPortItems, item.kind = .port false

theorem Headless.settled {rule : DefaultRule κ} (h : rule.Headless) : rule.Settled := by
  constructor
  · exact fun item hitem => h.items item hitem ▸ rfl
  · exact fun item hitem => h.sourceAddress item hitem ▸ rfl
  · exact fun item hitem => h.sourcePort item hitem ▸ rfl
  · exact fun item hitem => h.destinationAddress item hitem ▸ rfl
  · exact fun item hitem => h.destinationPort item hitem ▸ rfl

end DefaultRule

inductive Rule.Headless : Rule κ → Prop
  | default {rule : DefaultRule κ} (built : rule.Headless) : Headless (.default rule none none)
  | logical {mode : LogicalType} {invert : Bool} {rules : List (Rule κ)} (built : ∀ r ∈ rules, Headless r) :
      Headless (.logical mode invert rules)

end Hydracore.Rules
