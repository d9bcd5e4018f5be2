import Hydracore.Systems.Settling
import Mathlib.Data.UInt

/-!
The choice of an outbound in a URL test group: `URLTestGroup.Select`, `performUpdateCheck` and the update of the
outbounds by a provider.
-/

namespace Hydracore.Group

open Systems Option List

inductive Network where
  | tcp
  | udp
  | icmp
  deriving DecidableEq

structure Outbound where
  tag : String
  network : List Network
  deriving DecidableEq

structure URLTestHistory where
  delay : UInt16

def urlTestHistoryIsAvailable (history : Option URLTestHistory) : Bool := history.any (0 < ·.delay)

/-- `realTag` is `RealTag` with the outbound manager, `history` is `LoadURLTestHistory`. -/
structure URLTestGroup where
  outbounds : List Outbound
  realTag : Outbound → String
  history : String → Option URLTestHistory
  tolerance : UInt16
  selectedOutboundTCP : Option Outbound
  selectedOutboundUDP : Option Outbound

namespace URLTestGroup

def load (g : URLTestGroup) (detour : Outbound) : Option URLTestHistory := g.history (g.realTag detour)

def delay (g : URLTestGroup) (detour : Outbound) : UInt16 := ((g.load detour).map (·.delay)).getD 0

def selectedOutbound (g : URLTestGroup) : Network → Option Outbound
  | .tcp => g.selectedOutboundTCP
  | .udp => g.selectedOutboundUDP
  | .icmp => none

structure Minimum where
  delay : UInt16
  outbound : Option Outbound

def firstMinimum (g : URLTestGroup) (network : Network) : Minimum :=
  match g.selectedOutbound network with
  | none => ⟨0, none⟩
  | some selected =>
    if urlTestHistoryIsAvailable (g.load selected) then ⟨g.delay selected, some selected⟩ else ⟨0, none⟩

def next (g : URLTestGroup) (network : Network) (least : Minimum) (detour : Outbound) : Minimum :=
  if network ∉ detour.network then least
  else if !urlTestHistoryIsAvailable (g.load detour) then least
  else if least.delay = 0 ∨ least.delay > g.delay detour + g.tolerance then ⟨g.delay detour, some detour⟩
  else least

def select (g : URLTestGroup) (network : Network) : Option Outbound × Bool :=
  match (g.outbounds.foldl (g.next network) (g.firstMinimum network)).outbound with
  | none => (g.outbounds.find? (network ∈ ·.network), false)
  | some outbound => (some outbound, true)

def committed (selected : Option Outbound) (next : Option Outbound × Bool) : Option Outbound :=
  if next.1 ≠ none ∧ (selected = none ∨ (next.2 = true ∧ next.1 ≠ selected)) then next.1 else selected

def performUpdateCheck (g : URLTestGroup) : URLTestGroup :=
  { g with
    selectedOutboundTCP := committed g.selectedOutboundTCP (g.select .tcp)
    selectedOutboundUDP := committed g.selectedOutboundUDP (g.select .udp) }

def onProviderUpdated (g : URLTestGroup) (outbounds : List Outbound) : URLTestGroup :=
  { g with outbounds := outbounds }

/-!
What `Select` chooses. While no sum of a delay and the tolerance wraps below the delay of the choice, its loop is a walk that
leaves its choice only for an outbound that is faster by more than the tolerance.
-/

variable {g : URLTestGroup} {network : Network} {o : Outbound}

def Member (g : URLTestGroup) (network : Network) (o : Outbound) : Prop := o ∈ g.outbounds ∧ network ∈ o.network

def Available (g : URLTestGroup) (o : Outbound) : Prop := urlTestHistoryIsAvailable (g.load o) = true

instance : Decidable (g.Member network o) := inferInstanceAs (Decidable (_ ∧ _))

def Near (g : URLTestGroup) (o other : Outbound) : Prop :=
  (g.delay o).toNat ≤ (g.delay other).toNat + g.tolerance.toNat

instance {other : Outbound} : Decidable (g.Near o other) := inferInstanceAs (Decidable (_ ≤ _))

structure WellSelected (g : URLTestGroup) (network : Network) (result : Option Outbound) : Prop where
  member : (∃ o, g.Member network o) → ∃ o, result = some o ∧ g.Member network o
  nearest : (∃ o, g.Member network o ∧ g.Available o) → ∃ o, result = some o ∧ g.Member network o ∧ g.Available o ∧
      ∀ other, g.Member network other → g.Available other → other ≠ o → g.Near o other
  kept : ∀ o, g.selectedOutbound network = some o → g.Member network o → g.Available o →
    (∀ other, g.Member network other → g.Available other → other ≠ o → g.Near o other) → result = some o

def Usable (g : URLTestGroup) (network : Network) : Prop :=
  ∀ selected, g.selectedOutbound network = some selected → g.Available selected →
    g.Member network selected ∨ (∀ o, ¬g.Member network o) ∨
      ∃ o, g.Member network o ∧ g.Available o ∧ ¬g.Near selected o

def isCandidate (g : URLTestGroup) (network : Network) (o : Outbound) : Bool :=
  decide (network ∈ o.network) && urlTestHistoryIsAvailable (g.load o)

def startOf (g : URLTestGroup) (network : Network) : Option Outbound :=
  (g.selectedOutbound network).filter fun o => urlTestHistoryIsAvailable (g.load o)

/-- The sum in `uint16` is below the delay of `m` only where the sum is. -/
def Unwrapped (g : URLTestGroup) (m o : Outbound) : Prop :=
  g.delay o + g.tolerance < g.delay m → (g.delay o).toNat + g.tolerance.toNat < (g.delay m).toNat

instance {m : Outbound} : Decidable (g.Unwrapped m o) := inferInstanceAs (Decidable (_ → _))

def settles (g : URLTestGroup) : Option Outbound → List Outbound → Option Outbound :=
  settle (fun o => (g.delay o).toNat) g.tolerance.toNat

/-- `best` is chosen already when the walk comes to the candidates. -/
def unwraps (g : URLTestGroup) : Option Outbound → List Outbound → Bool
  | _, [] => true
  | best, o :: rest => best.all (fun m => decide (g.Unwrapped m o)) && g.unwraps (g.settles best [o]) rest

def NoOverflow (g : URLTestGroup) (network : Network) : Prop :=
  g.unwraps (g.startOf network) (g.outbounds.filter (g.isCandidate network)) = true

theorem isCandidate_iff : g.isCandidate network o = true ↔ network ∈ o.network ∧ g.Available o := by
  rw [isCandidate, Bool.and_eq_true, decide_eq_true_eq, Available]

theorem mem_candidates : o ∈ g.outbounds.filter (g.isCandidate network) ↔ g.Member network o ∧ g.Available o := by
  rw [mem_filter, isCandidate_iff, Member, and_assoc]

theorem Available.delay_ne_zero (h : g.Available o) : g.delay o ≠ 0 := by
  obtain ⟨history, hload, hpos⟩ := (any_eq_true _ _).mp h
  rw [delay, hload, map_some, getD_some]
  rintro hzero
  simp [hzero] at hpos

def chosen (g : URLTestGroup) : Option Outbound → Minimum
  | none => ⟨0, none⟩
  | some o => ⟨g.delay o, some o⟩

theorem firstMinimum_eq : g.firstMinimum network = g.chosen (g.startOf network) := by
  unfold firstMinimum startOf
  cases g.selectedOutbound network with
  | none => rfl
  | some selected =>
    by_cases hav : urlTestHistoryIsAvailable (g.load selected) = true
    all_goals simp [hav, chosen, Option.filter]

theorem next_of_candidate {best : Option Outbound} (hbest : ∀ b, best = some b → g.Available b)
    (hmem : network ∈ o.network) (hav : g.Available o) (hroom : ∀ b, best = some b → g.Unwrapped b o) :
    g.next network (g.chosen best) o =
      g.chosen (g.settles best [o]) := by
  have hload : urlTestHistoryIsAvailable (g.load o) = true := hav
  rw [next, if_neg (not_not_intro hmem), if_neg (by simp [hload])]
  cases best with
  | none => exact if_pos (.inl rfl)
  | some b =>
    have hb : g.delay b ≠ 0 := (hbest b rfl).delay_ne_zero
    have hlt : g.delay b > g.delay o + g.tolerance ↔
        (g.delay o).toNat + g.tolerance.toNat < (g.delay b).toNat := by
      refine ⟨hroom b rfl, fun hlt => ?_⟩
      rw [gt_iff_lt, UInt16.lt_iff_toNat_lt, UInt16.toNat_add]
      exact (Nat.mod_le _ _).trans_lt hlt
    simp only [chosen, settles, settle, hb, hlt, false_or]
    split_ifs
    · rfl
    · rfl

theorem settles_cons {best : Option Outbound} {xs : List Outbound} :
    g.settles best (o :: xs) = g.settles (g.settles best [o]) xs := by
  cases best <;> rfl

theorem next_of_not_candidate {least : Minimum} (h : ¬g.isCandidate network o = true) :
    g.next network least o = least := by
  rw [isCandidate_iff, not_and] at h
  unfold next
  by_cases hnetwork : network ∈ o.network
  · rw [if_neg (not_not_intro hnetwork), if_pos]
    simpa [Available] using h hnetwork
  · rw [if_pos hnetwork]

theorem loop_eq_settle {outbounds : List Outbound} (best : Option Outbound)
    (hroom : g.unwraps best (outbounds.filter (g.isCandidate network)) = true)
    (hbest : ∀ b, best = some b → g.Available b) :
    outbounds.foldl (g.next network) (g.chosen best) =
      g.chosen (g.settles best (outbounds.filter (g.isCandidate network))) := by
  induction outbounds generalizing best with
  | nil => cases best <;> rfl
  | cons o outbounds ih =>
    rw [foldl_cons]
    by_cases hcand : g.isCandidate network o = true
    · obtain ⟨hnetwork, hav⟩ := isCandidate_iff.mp hcand
      rw [filter_cons_of_pos hcand] at hroom ⊢
      obtain ⟨hunwrapped, hrest⟩ := Bool.and_eq_true_iff.mp hroom
      rw [Option.all_eq_true] at hunwrapped
      rw [settles_cons, next_of_candidate hbest hnetwork hav fun b hb => of_decide_eq_true (hunwrapped b hb)]
      -- the new minimum is the old one or `o`
      refine ih _ hrest fun b hb => ?_
      rcases settle_mem hb with hnew | hold
      · obtain rfl := mem_singleton.mp hnew
        exact hav
      · exact hbest b hold
    · rw [filter_cons_of_neg hcand] at hroom ⊢
      rw [next_of_not_candidate hcand]
      exact ih _ hroom hbest

theorem startOf_eq_some : g.startOf network = some o ↔ g.selectedOutbound network = some o ∧ g.Available o :=
  filter_eq_some_iff

def choice (g : URLTestGroup) (network : Network) : Option Outbound :=
  g.settles (g.startOf network) (g.outbounds.filter (g.isCandidate network))

theorem choice_mem (h : g.choice network = some o) :
    (g.Member network o ∧ g.Available o) ∨ (g.selectedOutbound network = some o ∧ g.Available o) := by
  rcases settle_mem h with hmem | hstart
  · exact .inl (mem_candidates.mp hmem)
  · exact .inr (startOf_eq_some.mp hstart)

theorem choice_near (h : g.choice network = some o) {other : Outbound} (hmem : g.Member network other)
    (hav : g.Available other) : g.Near o other :=
  settle_le h other (mem_candidates.mpr ⟨hmem, hav⟩)

theorem Usable.choice_member (h : g.Usable network) (hchoice : g.choice network = some o)
    (hex : ∃ o, g.Member network o) : g.Member network o := by
  rcases choice_mem hchoice with hmem | ⟨hselected, hav⟩
  · exact hmem.1
  · rcases h o hselected hav with hmem | hnone | ⟨other, hother, hotherav, hfar⟩
    · exact hmem
    · obtain ⟨member, hmember⟩ := hex
      exact absurd hmember (hnone member)
    · exact absurd (choice_near hchoice hother hotherav) hfar

section

variable (hroom : g.NoOverflow network)
include hroom

theorem select_eq : (g.select network).1 = (g.choice network).or (g.outbounds.find? (network ∈ ·.network)) := by
  have hloop := loop_eq_settle (g.startOf network) hroom fun b hb => (startOf_eq_some.mp hb).2
  rw [select, firstMinimum_eq, hloop, ← choice]
  cases g.choice network <;> rfl

theorem select_eq_of_choice (h : g.choice network = some o) :
    (g.select network).1 = some o := by
  rw [select_eq hroom, h]
  rfl

theorem Usable.wellSelected (h : g.Usable network) :
    g.WellSelected network (g.select network).1 where
  member := by
    intro hex
    cases hchoice : g.choice network with
    | some o => exact ⟨o, select_eq_of_choice hroom hchoice, h.choice_member hchoice hex⟩
    | none =>
      obtain ⟨member, hmember, hnetwork⟩ := hex
      have hsome : (g.outbounds.find? (network ∈ ·.network)).isSome = true :=
        find?_isSome.mpr ⟨member, hmember, decide_eq_true hnetwork⟩
      obtain ⟨o, ho⟩ := isSome_iff_exists.mp hsome
      refine ⟨o, ?_, mem_of_find?_eq_some ho, by simpa using find?_some ho⟩
      rw [select_eq hroom, hchoice, none_or, ho]
  nearest := by
    rintro ⟨member, hmember, hav⟩
    obtain ⟨o, ho⟩ : ∃ o, g.choice network = some o := exists_settle_of_mem (mem_candidates.mpr ⟨hmember, hav⟩)
    have hoav : g.Available o := by
      rcases choice_mem ho with hmem | hselected
      · exact hmem.2
      · exact hselected.2
    exact ⟨o, select_eq_of_choice hroom ho, h.choice_member ho ⟨member, hmember⟩, hoav,
      fun other hother hotherav _ => choice_near ho hother hotherav⟩
  kept := by
    intro o hselected hmember hav hnear
    apply select_eq_of_choice hroom
    rw [choice, startOf_eq_some.mpr ⟨hselected, hav⟩]
    apply settle_keep
    intro other hother
    obtain ⟨hothermem, hotherav⟩ := mem_candidates.mp hother
    by_cases heq : other = o
    · rw [heq]
      exact Nat.le_add_right _ _
    · exact hnear other hothermem hotherav heq

theorem WellSelected.usable (h : g.WellSelected network (g.select network).1) :
    g.Usable network := by
  intro selected hselected hav
  by_contra hnot
  push Not at hnot
  obtain ⟨hforeign, hex, hnear⟩ := hnot
  -- the walk starts at the stale selection and finds no reason to leave it
  have hchoice : g.choice network = some selected := by
    rw [choice, startOf_eq_some.mpr ⟨hselected, hav⟩]
    apply settle_keep
    intro other hother
    obtain ⟨hothermem, hotherav⟩ := mem_candidates.mp hother
    exact hnear other hothermem hotherav
  obtain ⟨o, ho, hmember⟩ := h.member hex
  rw [select_eq_of_choice hroom hchoice] at ho
  exact hforeign (some.inj ho ▸ hmember)

end

theorem select_wellSelected_iff (g : URLTestGroup) (network : Network) (hroom : g.NoOverflow network) :
    g.WellSelected network (g.select network).1 ↔ g.Usable network :=
  ⟨fun h => h.usable hroom, fun h => h.wellSelected hroom⟩

def sample (outbounds : List String) (tolerance : UInt16) : URLTestGroup :=
  { outbounds := outbounds.map fun tag => ⟨tag, [.tcp]⟩
    realTag := Outbound.tag
    history := fun tag => if tag = "a" then some ⟨100⟩ else if tag = "b" then some ⟨200⟩ else some ⟨5600⟩
    tolerance := tolerance
    selectedOutboundTCP := none
    selectedOutboundUDP := none }

theorem select_wellSelected_sample : (sample ["c", "a", "b"] 60000).WellSelected .tcp (some ⟨"c", [.tcp]⟩) := by
  have hroom : (sample ["c", "a", "b"] 60000).NoOverflow .tcp := by
    unfold NoOverflow
    decide
  exact (select_wellSelected_iff _ .tcp hroom).mpr nofun

theorem select_not_wellSelected :
    (¬((sample ["a"] 50).performUpdateCheck.onProviderUpdated [⟨"b", [.tcp]⟩]).WellSelected .tcp
      (((sample ["a"] 50).performUpdateCheck.onProviderUpdated [⟨"b", [.tcp]⟩]).select .tcp).1) ∧
    ¬((sample ["a"] 60000).performUpdateCheck.onProviderUpdated [⟨"a", [.tcp]⟩, ⟨"c", [.tcp]⟩]).WellSelected .tcp
      (((sample ["a"] 60000).performUpdateCheck.onProviderUpdated [⟨"a", [.tcp]⟩, ⟨"c", [.tcp]⟩]).select .tcp).1 := by
  constructor
  · intro h
    obtain ⟨o, ho, hmember⟩ := h.member ⟨⟨"b", [.tcp]⟩, by decide⟩
    obtain rfl : (⟨"a", [.tcp]⟩ : Outbound) = o := Option.some.inj ho
    revert hmember
    decide
  · intro h
    have hkept := h.kept ⟨"a", [.tcp]⟩ rfl (by decide) rfl ?_
    · revert hkept
      decide
    · rintro other ⟨hmem, -⟩ -
      revert other
      decide

end URLTestGroup

end Hydracore.Group
