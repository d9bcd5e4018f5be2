import Hydracore.Dns.Walking

namespace Hydracore.Dns

open Systems List

variable {κ : Type}

namespace Exchange

variable {x : Exchange κ} {s : WalkState κ}

variable (haccepted : Accepted x.rules)

variable {phase : Phase} {rule : DNSRule κ}

theorem Sound.suspend (h : Sound x ⟨phase, s⟩) {suspension : Suspension}
    (hsuspended : Suspended x s suspension) : Sound x (s.suspend suspension) :=
  h.of_phase fresh_nil hsuspended

theorem Sound.finish (h : Sound x ⟨phase, s⟩) {result : ExchangeResult} (hresult : x.IsOutcome result) :
    Sound x (s.finish result) :=
  h.of_phase fresh_nil hresult

include haccepted

theorem Sound.head (h : Sound x ⟨.head, s⟩) {w : Walk κ} (hstep : x.advance s .head = some w) : Sound x w := by
  have hopen : Open x s s.ruleIndex 0 := h.phase
  have hconsistent : Consistent x s (x.before s.ruleIndex) := h.consistent
  simp only [advance] at hstep
  cases hrule : x.rules[s.ruleIndex]? with
  | none =>
    simp only [hrule] at hstep
    split_ifs at hstep with harmed
    · cases hstep
      exact h.suspend hopen
    · cases hstep
      have hempty : s.armedRules = [] := by simpa using harmed
      apply h.suspend
      refine ⟨hempty, _, rfl, isOutcome_of_head hopen hempty ?_⟩
      simp only [decided, hrule, hconsistent.options]
  | some rule =>
    simp only [hrule] at hstep
    cases hstep
    split_ifs with hbindings
    · exact h.of_phase fresh_nil ⟨hopen, by rw [hrule]; rfl⟩
    · -- a rule without bindings is no race rule, and binds nothing
      have hrace : rule.race = false := by
        have := (Accepted.newDNSRule_ok (haccepted.built _ (mem_of_getElem? hrule))).2
        cases hr : rule.race with
        | false => rfl
        | true => exact absurd (this hr).2 hbindings
      simp only [DNSRule.hasBindings, Bool.or_eq_true, Bool.not_eq_true', not_or] at hbindings
      have htags : rule.tags = [] := by simpa using hbindings.1
      apply h.of_phase fresh_nil
      refine ⟨hopen, rule, hrule, hrace, ?_, ?_⟩
      · intro tag htag
        simp [htags] at htag
      · exact fun hanonymous => absurd hanonymous hbindings.2

omit haccepted

theorem Sound.settle {suspension : Option Suspension} (h : Sound x ⟨.settling suspension, s⟩)
    (hphase : ∀ t : WalkState κ, PhaseHolds x t (.settling suspension) → PhaseHolds x t phase) :
    Sound x ⟨phase, x.settleDNSFutures s⟩ := by
  have hlater : Later s (x.settleDNSFutures s) := ⟨settleDNSFutures_grown, rfl, rfl, rfl, rfl⟩
  constructor
  · exact h.consistent.settleDNSFutures
  · intro i hi
    obtain ⟨result, hresult, hdecided⟩ := h.terminal i hi
    exact ⟨result, pendingResult_mono hlater.grown hresult, hdecided⟩
  · intro tag _ i _ hresolved
    rw [isResolved_settleDNSFutures] at hresolved
    rw [isSettled_settleDNSFutures, hresolved, Bool.or_true]
  · exact hphase _ (h.phase.mono hlater)

theorem mem_pendingFutures {i : ℕ} : i ∈ s.pendingFutures rule ↔
    ((∃ tag ∈ rule.tags, s.namedFutures tag = some i) ∨ (rule.anonymous = true ∧ s.anonymousFuture = some i)) ∧
      s.isResolved i = false := by
  cases hanonymous : rule.anonymous <;>
    simp [WalkState.pendingFutures, hanonymous, mem_filter, mem_filterMap, or_and_right]

theorem Consistent.lt_length {bound : Bound} (h : Consistent x s bound) {i : ℕ}
    (hi : (∃ tag ∈ rule.tags, s.namedFutures tag = some i) ∨ (rule.anonymous = true ∧ s.anonymousFuture = some i)) :
    i < s.futures.length := by
  obtain ⟨tag, _, hfuture⟩ | ⟨_, hfuture⟩ := hi
  · obtain ⟨_, f, hf, _⟩ := h.owner tag i hfuture
    exact getElem?_lt hf
  · have hrefers := h.anonymous
    rw [hfuture] at hrefers
    obtain ⟨f, hf, _⟩ := hrefers.exists_future
    exact getElem?_lt hf

theorem armedFor_arm (hrule : x.rules[s.ruleIndex]? = some rule) (hrace : rule.race = true)
    (hconsistent : Consistent x s (x.before s.ruleIndex)) (hfresh : Fresh s rule.tags) :
    ∀ armed ∈ (s.arm rule).armedRules, armed ∈ s.armedRules ∨
      (ArmedFor x s armed ∧ armed.ruleIndex = s.ruleIndex ∧ armed.futures = s.pendingFutures rule) := by
  intro armed hmem
  obtain hmem | hmem := mem_append.mp hmem
  · exact .inl hmem
  · obtain rfl := mem_singleton.mp hmem
    refine .inr ⟨?_, rfl, rfl⟩
    constructor
    · exact hrule
    · exact hrace
    · exact hconsistent.options
    · rfl
    · split_ifs
      · exact hconsistent.anonymous
      · exact .none
    · intro i hi
      split_ifs at hi with hanonymous
      cases hresolved : s.isResolved i with
      | true => exact .inr rfl
      | false => exact .inl (mem_pendingFutures.mpr ⟨.inr ⟨hanonymous, hi⟩, hresolved⟩)
    · intro tag htag i hi
      cases hresolved : s.isResolved i with
      | true => exact .inr (hfresh tag htag i hi hresolved)
      | false => exact .inl (mem_pendingFutures.mpr ⟨.inl ⟨tag, htag, hi⟩, hresolved⟩)
    · intro i hi
      obtain ⟨hnamed | ⟨hanonymous, hi⟩, _⟩ := mem_pendingFutures.mp hi
      · exact .inr hnamed
      · exact .inl (by simp only [hanonymous, if_true, hi])

theorem open_arm (hopen : Open x s s.ruleIndex 0) (hrule : x.rules[s.ruleIndex]? = some rule)
    (hrace : rule.race = true) (hconsistent : Consistent x s (x.before s.ruleIndex)) (hfresh : Fresh s rule.tags) :
    Open x (s.arm rule) (s.ruleIndex + 1) 0 := by
  have harmed := armedFor_arm hrule hrace hconsistent hfresh
  constructor
  · intro i hi
    obtain hlt | rfl : i < s.ruleIndex ∨ i = s.ruleIndex := by omega
    · exact hopen.passed i hlt
    · simp [decided_of_rule hrule, hrace]
  · intro k hk
    obtain hlt | rfl : k < s.ruleIndex ∨ k = s.ruleIndex := by omega
    · obtain ⟨armed, hmem, hposition⟩ | hnone := hopen.races k hlt
      · exact .inl ⟨armed, mem_append_left _ hmem, hposition⟩
      · exact .inr hnone
    · exact .inl ⟨_, mem_append_right _ (mem_singleton.mpr rfl), rfl⟩
  · intro armed hmem
    obtain hold | ⟨hfor, hposition, _⟩ := harmed armed hmem
    · obtain ⟨hfor, hlt⟩ := hopen.armed armed hold
      exact ⟨hfor.mono Grown.refl fun _ _ => rfl, by omega⟩
    · exact ⟨hfor.mono Grown.refl fun _ _ => rfl, by omega⟩
  · intro j armed hj hnothing
    obtain hold | ⟨_, hposition, _⟩ := harmed armed (mem_of_getElem? hj)
    · exact absurd hnothing (hopen.waiting hold)
    · exact ⟨Nat.zero_le j, hposition⟩

theorem Sound.bind (h : Sound x ⟨.binding, s⟩) {w : Walk κ} (hstep : x.advance s .binding = some w) : Sound x w := by
  obtain ⟨hopen, hsome⟩ : Open x s s.ruleIndex 0 ∧ _ := h.phase
  have hconsistent : Consistent x s (x.before s.ruleIndex) := h.consistent
  obtain ⟨rule, hrule⟩ := Option.isSome_iff_exists.mp hsome
  have hwatched : Fresh s (rule.tags ++ if rule.race then armedTags s else []) := by
    simpa only [watched, hrule] using h.fresh
  have hfresh : Fresh s rule.tags := fun tag htag => hwatched tag (mem_append_left _ htag)
  simp only [advance, hrule, Option.map_some] at hstep
  cases hrace : rule.race with
  | true =>
    have harm := open_arm hopen hrule hrace hconsistent hfresh
    split_ifs at hstep with hempty
    · cases hstep
      constructor
      · exact hconsistent.frame
      · exact h.terminal
      · intro tag htag
        apply hwatched tag
        simpa [watched, armedTags, WalkState.arm, hrace, or_comm] using htag
      · exact ⟨harm, rule, hrule, hrace⟩
    · cases hstep
      have hwaiting : ∀ armed ∈ (s.arm rule).armedRules, armed.futures ≠ [] := by
        intro armed hmem
        obtain hold | ⟨_, _, hfutures⟩ := armedFor_arm hrule hrace hconsistent hfresh armed hmem
        · exact hopen.waiting hold
        · simpa [hfutures] using hempty
      have hskip : x.before (s.ruleIndex + 1) = x.before s.ruleIndex := before_succ_of_not hrule (by simp [hrace])
      constructor
      · exact hskip ▸ hconsistent.frame
      · exact h.terminal
      · exact fresh_nil
      · exact harm.pass hwaiting
  | false =>
    simp only [hrace, Bool.false_eq_true, if_false] at hstep
    split at hstep
    · rename_i future rest hpending
      cases hstep
      have hmem : future ∈ s.pendingFutures rule := by rw [hpending]; exact mem_cons_self
      exact h.suspend ⟨hopen, hconsistent.lt_length (mem_pendingFutures.mp hmem).1⟩
    · rename_i hpending
      cases hstep
      have hresolved : ∀ i, ((∃ tag ∈ rule.tags, s.namedFutures tag = some i) ∨
          (rule.anonymous = true ∧ s.anonymousFuture = some i)) → s.isResolved i = true := by
        intro i hi
        cases hopenFuture : s.isResolved i with
        | true => rfl
        | false => simpa [hpending] using mem_pendingFutures.mpr ⟨hi, hopenFuture⟩
      apply h.of_phase fresh_nil
      refine ⟨hopen, rule, hrule, hrace, ?_, ?_⟩
      · exact fun tag htag i hi => hfresh tag htag i hi (hresolved i (.inl ⟨tag, htag, hi⟩))
      · exact fun hanonymous i hi => hresolved i (.inr ⟨hanonymous, hi⟩)

theorem Sound.next (h : Sound x ⟨phase, s⟩) {t : WalkState κ} (hahead : Ahead s t)
    (hopen : Open x s s.ruleIndex 0) (hdecided : x.decided s.ruleIndex = none) (hraced : x.raced s.ruleIndex = none)
    (hconsistent : Consistent x t (x.before (s.ruleIndex + 1))) : Sound x t.next := by
  constructor
  · simp only [WalkState.next, hahead.rule]
    exact hconsistent.frame
  · intro i hi
    obtain ⟨result, hresult, hterminal⟩ := h.terminal i (hahead.terminalFuture ▸ hi)
    exact ⟨result, pendingResult_mono hahead.grown hresult, hahead.terminalIndex ▸ hterminal⟩
  · exact fresh_nil
  · exact hopen.next hahead hdecided hraced

end Exchange

end Hydracore.Dns
