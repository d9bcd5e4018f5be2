import Hydracore.Dns.Armed

namespace Hydracore.Dns

open WalkState

variable {κ : Type}

namespace Exchange

variable {x : Exchange κ} {s t : WalkState κ} {w : Walk κ} {n index : ℕ} {phase : Phase} {suspension : Suspension}
  {pending : PendingExchange} {result : ExchangeResult}

/-- The first `n` rules have decided nothing, and a race rule among them is armed or does not match. Only the
rule just armed waits for nothing, and it stands where the sweep has yet to come. -/
structure Open (x : Exchange κ) (s : WalkState κ) (n index : ℕ) : Prop where
  passed : ∀ i < n, x.decided i = none
  races : ∀ k < n, (∃ armed ∈ s.armedRules, armed.ruleIndex = k) ∨ x.raced k = none
  armed : ∀ armed ∈ s.armedRules, ArmedFor x s armed ∧ armed.ruleIndex < n
  idle : ∀ (j : ℕ) (armed : ArmedRule κ), s.armedRules[j]? = some armed → armed.futures = [] →
    index ≤ j ∧ armed.ruleIndex = s.ruleIndex

section

variable (x : Exchange κ)

section

variable (s : WalkState κ)

def Committed (pending : PendingExchange) : Prop :=
  ∃ result, x.pendingResult s pending = some result ∧ x.IsOutcome result

def Suspended : Suspension → Prop
  | .pending pending => s.armedRules = [] ∧ Committed x s pending
  | .await i => Open x s s.ruleIndex 0 ∧ i < s.futures.length
  | .drain => Open x s s.ruleIndex 0

def Bindable : Prop :=
  ∃ rule, x.rules[s.ruleIndex]? = some rule ∧ rule.race = false ∧ SettledFor s rule ∧
    (rule.anonymous = true → ∀ i, s.anonymousFuture = some i → s.isResolved i = true)

def PhaseHolds : Phase → Prop
  | .head => Open x s s.ruleIndex 0
  | .settling none | .binding => Open x s s.ruleIndex 0 ∧ (x.rules[s.ruleIndex]?).isSome
  | .matching => Open x s s.ruleIndex 0 ∧ Bindable x s
  | .sweeping none index => Open x s (s.ruleIndex + 1) index ∧ ∃ rule, x.rules[s.ruleIndex]? = some rule ∧ rule.race = true
  | .settling (some suspension) | .sweeping (some suspension) _ | .deciding suspension | .waiting suspension =>
    Suspended x s suspension
  | .exchanging pending => Committed x s pending
  | .finished result => x.IsOutcome result

end

end

def armedTags (s : WalkState κ) : List String := s.armedRules.flatMap fun armed => armed.rule.tags

def watched (x : Exchange κ) (w : Walk κ) : List String :=
  match w.phase with
  | .binding =>
    match x.rules[w.state.ruleIndex]? with
    | none => []
    | some rule => rule.tags ++ if rule.race then armedTags w.state else []
  | .sweeping _ _ => armedTags w.state
  | _ => []

def Fresh (s : WalkState κ) (tags : List String) : Prop :=
  ∀ tag ∈ tags, ∀ i, s.namedFutures tag = some i → s.isResolved i = true → s.isSettled i = true

structure Sound (x : Exchange κ) (w : Walk κ) : Prop where
  consistent : Consistent x w.state (x.before w.state.ruleIndex)
  terminal : ∀ i, w.state.terminalFuture = some i → ∃ result, x.pendingResult w.state (.future i) = some result ∧
    x.decided w.state.terminalIndex = some result
  fresh : Fresh w.state (x.watched w)
  phase : PhaseHolds x w.state w.phase

structure Later (s t : WalkState κ) : Prop where
  grown : Grown s.futures t.futures
  armed : t.armedRules = s.armedRules
  named : t.namedFutures = s.namedFutures
  anonymous : t.anonymousFuture = s.anonymousFuture
  rule : t.ruleIndex = s.ruleIndex

theorem pendingResult_mono (hgrown : Grown s.futures t.futures)
    (h : x.pendingResult s pending = some result) : x.pendingResult t pending = some result := by
  cases pending with
  | exchange => exact h
  | future i =>
    obtain ⟨f, hf, rfl⟩ := Option.map_eq_some_iff.mp h
    obtain ⟨g, hg, hquery, _⟩ := hgrown i f hf
    simp [pendingResult, hg, hquery]

section Later

variable (hlater : Later s t)

include hlater

theorem Open.mono (h : Open x s n index) : Open x t n index where
  passed := h.passed
  races := hlater.armed ▸ h.races
  armed := fun armed hmem => by
    obtain ⟨hfor, hlt⟩ := h.armed armed (hlater.armed ▸ hmem)
    exact ⟨hfor.mono hlater.grown fun tag _ => by rw [hlater.named], hlt⟩
  idle := by rw [hlater.armed, hlater.rule]; exact h.idle

theorem Open.mono_head (h : Open x s s.ruleIndex 0) : Open x t t.ruleIndex 0 := by
  rw [hlater.rule]
  exact h.mono hlater

theorem Committed.mono (h : Committed x s pending) : Committed x t pending := by
  obtain ⟨result, hresult, houtcome⟩ := h
  exact ⟨result, pendingResult_mono hlater.grown hresult, houtcome⟩

theorem Suspended.mono (h : Suspended x s suspension) : Suspended x t suspension := by
  cases suspension with
  | pending pending => exact ⟨hlater.armed ▸ h.1, h.2.mono hlater⟩
  | await i => exact ⟨Open.mono_head hlater h.1, hlater.grown.lt_length h.2⟩
  | drain => exact Open.mono_head hlater h

omit hlater in
theorem Suspended.open_head (h : Suspended x s suspension)
    (hopen : ∀ pending, suspension ≠ .pending pending) : Open x s s.ruleIndex 0 := by
  cases suspension with
  | pending pending => exact absurd rfl (hopen pending)
  | await => exact h.1
  | drain => exact h

theorem Bindable.mono (h : Bindable x s) : Bindable x t := by
  obtain ⟨rule, hget, hrace, hsettled, hresolved⟩ := h
  refine ⟨rule, hlater.rule ▸ hget, hrace, ?_, ?_⟩
  · intro tag htag i hi
    exact isSettled_of_grown hlater.grown (hsettled tag htag i (hlater.named ▸ hi))
  · intro hbinds i hi
    exact isResolved_of_grown hlater.grown (hresolved hbinds i (hlater.anonymous ▸ hi))

theorem PhaseHolds.mono (h : PhaseHolds x s phase) : PhaseHolds x t phase := by
  cases phase with
  | head => exact Open.mono_head hlater h
  | settling suspension =>
    cases suspension with
    | none => exact ⟨Open.mono_head hlater h.1, hlater.rule ▸ h.2⟩
    | some suspension => exact Suspended.mono hlater h
  | binding => exact ⟨Open.mono_head hlater h.1, hlater.rule ▸ h.2⟩
  | matching => exact ⟨Open.mono_head hlater h.1, Bindable.mono hlater h.2⟩
  | sweeping suspension index =>
    cases suspension with
    | none =>
      simp only [PhaseHolds, hlater.rule]
      exact ⟨h.1.mono hlater, h.2⟩
    | some suspension => exact Suspended.mono hlater h
  | deciding suspension | waiting suspension => exact Suspended.mono hlater h
  | exchanging pending => exact Committed.mono hlater h
  | finished result => exact h

end Later

theorem later_of_complete {i : ℕ} (h : complete s i = some t) : Later s t := by
  obtain ⟨f, hf, _, rfl⟩ := complete_eq h
  exact ⟨Grown.set_resolved hf, rfl, rfl, rfl, rfl⟩

theorem Sound.complete (h : Sound x w) {i : ℕ} (hstep : complete w.state i = some t)
    (hcalm : ∀ f, w.state.futures[i]? = some f → f.tag ∉ x.watched w) : Sound x ⟨w.phase, t⟩ := by
  obtain ⟨f, hf, _, ht⟩ := complete_eq hstep
  have hlater := later_of_complete hstep
  constructor
  · exact hlater.rule ▸ h.consistent.complete hstep
  · intro j hj
    obtain ⟨result, hresult, hdecided⟩ := h.terminal j (by simpa [ht] using hj)
    exact ⟨result, pendingResult_mono hlater.grown hresult, by simpa [ht] using hdecided⟩
  · have hwatched : x.watched ⟨w.phase, t⟩ = x.watched w := by
      simp only [watched, armedTags, hlater.armed, hlater.rule]
    rw [hwatched]
    intro tag htag j hj hresolved
    rw [hlater.named] at hj
    apply isSettled_of_grown hlater.grown
    apply h.fresh tag htag j hj
    obtain ⟨_, g, hg, howner⟩ := h.consistent.owner tag j hj
    -- the query that completes has another tag
    have hij : i ≠ j := by
      rintro rfl
      cases hf.symm.trans hg
      exact hcalm f hf (howner ▸ htag)
    simpa [isResolved, ht, List.getElem?_set_ne hij] using hresolved
  · exact PhaseHolds.mono hlater h.phase

theorem Open.raced_none (h : Open x s n index) (hempty : s.armedRules = []) : ∀ k < n, x.raced k = none := by
  intro k hk
  obtain ⟨armed, hmem, _⟩ | hnone := h.races k hk
  · simp [hempty] at hmem
  · exact hnone

theorem Open.waiting (h : Open x s s.ruleIndex index) {armed : ArmedRule κ} (hmem : armed ∈ s.armedRules) :
    armed.futures ≠ [] := by
  intro hnothing
  obtain ⟨j, hj⟩ := List.getElem?_of_mem hmem
  have hlt := (h.armed armed hmem).2
  have heq := (h.idle j armed hj hnothing).2
  omega

theorem Open.pass (h : Open x s (s.ruleIndex + 1) index)
    (hwaiting : ∀ armed ∈ s.armedRules, armed.futures ≠ []) : Open x s.next.state s.next.state.ruleIndex 0 where
  passed := h.passed
  races := h.races
  armed := fun armed hmem => ⟨(h.armed armed hmem).1.mono Grown.refl fun _ _ => rfl, (h.armed armed hmem).2⟩
  idle := fun _ armed hj hnothing => absurd hnothing (hwaiting armed (List.mem_of_getElem? hj))

structure Ahead (s t : WalkState κ) : Prop where
  grown : Grown s.futures t.futures
  armed : t.armedRules = s.armedRules
  named : ∀ armed ∈ s.armedRules, ∀ tag ∈ armed.rule.tags, t.namedFutures tag = s.namedFutures tag
  rule : t.ruleIndex = s.ruleIndex
  terminalFuture : t.terminalFuture = s.terminalFuture
  terminalIndex : t.terminalIndex = s.terminalIndex

theorem Open.next (hahead : Ahead s t) (h : Open x s s.ruleIndex 0) (hdecided : x.decided s.ruleIndex = none)
    (hraced : x.raced s.ruleIndex = none) : Open x t.next.state t.next.state.ruleIndex 0 := by
  have hnext : t.next.state.ruleIndex = s.ruleIndex + 1 := by rw [← hahead.rule]; rfl
  have harmed : t.next.state.armedRules = s.armedRules := hahead.armed
  constructor
  · intro i hi
    obtain hlt | rfl : i < s.ruleIndex ∨ i = s.ruleIndex := by omega
    · exact h.passed i hlt
    · exact hdecided
  · intro k hk
    obtain hlt | rfl : k < s.ruleIndex ∨ k = s.ruleIndex := by omega
    · exact harmed ▸ h.races k hlt
    · exact .inr hraced
  · intro armed hmem
    rw [harmed] at hmem
    obtain ⟨hfor, hlt⟩ := h.armed armed hmem
    exact ⟨hfor.mono hahead.grown (hahead.named armed hmem), by omega⟩
  · intro j armed hj hnothing
    rw [harmed] at hj
    exact absurd hnothing (h.waiting (List.mem_of_getElem? hj))

theorem Sound.of_phase (h : Sound x w) (hfresh : Fresh w.state (x.watched ⟨phase, w.state⟩))
    (hphase : PhaseHolds x w.state phase) : Sound x ⟨phase, w.state⟩ := ⟨h.consistent, h.terminal, hfresh, hphase⟩

theorem fresh_nil : Fresh s [] := nofun

theorem isOutcome_of_head (h : Open x s s.ruleIndex index) (hempty : s.armedRules = [])
    (hdecided : x.decided s.ruleIndex = some result) : x.IsOutcome result :=
  x.isOutcome_of_decided h.passed (h.raced_none hempty) hdecided

end Exchange

end Hydracore.Dns
