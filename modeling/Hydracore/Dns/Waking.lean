import Hydracore.Dns.Running

namespace Hydracore.Dns

open Systems List Option

variable {κ : Type}

namespace Exchange

variable {x : Exchange κ} {s t : WalkState κ} {n : ℕ}

structure Launched (s : WalkState κ) : Prop where
  anonymous : ∀ i, s.anonymousFuture = some i → i < s.futures.length
  named : ∀ tag i, s.namedFutures tag = some i → i < s.futures.length
  terminal : ∀ i, s.terminalFuture = some i → i < s.futures.length
  armed : ∀ armed ∈ s.armedRules, ∀ i ∈ armed.futures, i < s.futures.length

def PendingLaunched (s : WalkState κ) : PendingExchange → Prop
  | .exchange _ _ _ => True
  | .future i => i < s.futures.length

def SuspensionLaunched (s : WalkState κ) : Suspension → Prop
  | .await i => i < s.futures.length
  | .drain => True
  | .pending pending => PendingLaunched s pending

def PhaseLaunched (x : Exchange κ) (s : WalkState κ) : Phase → Prop
  | .settling none | .binding | .matching | .sweeping none _ => s.ruleIndex < x.rules.length
  | .settling (some suspension) | .sweeping (some suspension) _ | .deciding suspension | .waiting suspension =>
    SuspensionLaunched s suspension
  | .exchanging pending => PendingLaunched s pending
  | .head | .finished _ => True

structure Indexed (x : Exchange κ) (w : Walk κ) : Prop where
  launched : Launched w.state
  phase : PhaseLaunched x w.state w.phase

def Quiet (s : WalkState κ) : Prop := s.wake = false ∧ s.signals = 0

def StillWaiting (s : WalkState κ) (n : ℕ) : Prop :=
  ∀ j < n, ∀ armed, s.armedRules[j]? = some armed → ∃ i ∈ armed.futures, Quiet s → s.isResolved i = false

def Blocked (s : WalkState κ) : Suspension → Prop
  | .await i => Quiet s → s.isResolved i = false
  | .drain => s.armedRules ≠ [] ∧ StillWaiting s s.armedRules.length
  | .pending _ => False

def Live (w : Walk κ) : Prop :=
  match w.phase with
  | .sweeping (some _) index => StillWaiting w.state index
  | .deciding _ => StillWaiting w.state w.state.armedRules.length
  | .waiting suspension => Blocked w.state suspension
  | _ => True

structure Ready (x : Exchange κ) (w : Walk κ) : Prop where
  indexed : Indexed x w
  live : Live w

structure Steps (x : Exchange κ) (w w' : Walk κ) : Prop where
  ready : Ready x w'
  lighter : x.weight w' < x.weight w

namespace Launched

theorem grow (h : Launched s) (hlength : s.futures.length ≤ t.futures.length)
    (hanonymous : t.anonymousFuture = s.anonymousFuture) (hnamed : t.namedFutures = s.namedFutures)
    (hterminal : t.terminalFuture = s.terminalFuture) (harmed : t.armedRules ⊆ s.armedRules) : Launched t where
  anonymous i hi := (h.anonymous i (hanonymous ▸ hi)).trans_le hlength
  named tag i hi := (h.named tag i (hnamed ▸ hi)).trans_le hlength
  terminal i hi := (h.terminal i (hterminal ▸ hi)).trans_le hlength
  armed armed ha i hi := (h.armed armed (harmed ha) i hi).trans_le hlength

theorem pending (h : Launched s) {rule : DNSRule κ} {i : ℕ} (hi : i ∈ s.pendingFutures rule) : i < s.futures.length := by
  have hmem := (mem_filter.mp hi).1
  rcases mem_append.mp hmem with hnamed | hanonymous
  · obtain ⟨tag, -, htag⟩ := mem_filterMap.mp hnamed
    exact h.named tag i htag
  · split_ifs at hanonymous
    · exact h.anonymous i (mem_toList.mp hanonymous)
    · cases hanonymous

theorem arm (h : Launched s) (rule : DNSRule κ) : Launched (s.arm rule) := by
  refine ⟨h.anonymous, h.named, h.terminal, fun armed harmed i hi => ?_⟩
  rcases mem_append.mp harmed with harmed | harmed
  · exact h.armed armed harmed i hi
  · obtain rfl := mem_singleton.mp harmed
    exact h.pending hi

theorem launch (h : Launched s) (tag : String) (transport : Transport) (options : DNSQueryOptions) :
    Launched (x.launchDNSEvaluate s tag transport options) := by
  have hlength : s.futures.length ≤ (x.launchDNSEvaluate s tag transport options).futures.length := by
    simp [launchDNSEvaluate]
  exact h.grow hlength rfl rfl rfl fun _ ha => ha

theorem next (h : Launched t) : Ready x t.next := ⟨⟨⟨h.anonymous, h.named, h.terminal, h.armed⟩, trivial⟩, trivial⟩

theorem drain (h : Launched t) : Ready x (t.suspend .drain) := ⟨⟨h, trivial⟩, trivial⟩

theorem finish (h : Launched t) (result : ExchangeResult) : Ready x (t.finish result) := ⟨⟨h, trivial⟩, trivial⟩

theorem exchange (h : Launched t) (rule : ℕ) (transport : Transport) (options : DNSQueryOptions) :
    Ready x (t.suspend (.pending (.exchange rule transport options))) := ⟨⟨h, trivial⟩, trivial⟩

end Launched

theorem steps_act (h : Launched s) {rule : DNSRule κ} (hrule : x.rules[s.ruleIndex]? = some rule) :
    Steps x ⟨.matching, s⟩ (x.act s rule) := by
  have hlt := getElem?_lt hrule
  have hlast : ∀ tag transport options, s.futures.length < (x.launchDNSEvaluate s tag transport options).futures.length := by
    simp [launchDNSEvaluate]
  have hnext : ∀ t : WalkState κ, t.ruleIndex = s.ruleIndex → Launched t → Steps x ⟨.matching, s⟩ t.next :=
    fun t ht hlaunched => ⟨hlaunched.next, weight_next hlt ht (by simp [rulesLeft])⟩
  have hdrain : s.armedRules.isEmpty = false → Steps x ⟨.matching, s⟩ (s.suspend .drain) := fun harmed =>
    ⟨h.drain, weight_suspend (blocked_drain harmed) rfl (by simp [rank])⟩
  have hfinish : ∀ result, Steps x ⟨.matching, s⟩ (s.finish result) := fun result =>
    ⟨h.finish result, weight_lt_of_rulesLeft (by simp [rulesLeft, WalkState.finish])⟩
  have hpending : ∀ pending, PendingLaunched s pending → Steps x ⟨.matching, s⟩ (s.suspend (.pending pending)) :=
    fun pending hlaunched => ⟨⟨⟨h, hlaunched⟩, trivial⟩, weight_pending (by simp [rulesLeft])⟩
  unfold act
  cases rule.action with
  | routeOptions options =>
    exact hnext _ rfl ⟨h.anonymous, h.named, h.terminal, h.armed⟩
  | evaluate server tag speculative options =>
    dsimp only
    cases x.transports server with
    | none =>
      dsimp only
      split_ifs
      · exact hnext _ rfl ⟨by rintro i ⟨⟩, h.named, h.terminal, h.armed⟩
      · exact hnext _ rfl h
    | some transport =>
      have hlaunch := h.launch (x := x) tag transport (applyDNSRouteOptions s.effectiveOptions options)
      have hnew := hlast tag transport (applyDNSRouteOptions s.effectiveOptions options)
      dsimp only
      split_ifs with harmed
      · simp only [Bool.and_eq_true, Bool.not_eq_true'] at harmed
        exact hdrain harmed.2
      · refine hnext _ rfl ⟨fun i hi => ?_, hlaunch.named, hlaunch.terminal, hlaunch.armed⟩
        cases hi
        exact hnew
      · refine hnext _ rfl ⟨hlaunch.anonymous, fun tag' i hi => ?_, hlaunch.terminal, hlaunch.armed⟩
        dsimp only at hi
        rw [Function.update_apply] at hi
        split_ifs at hi
        · cases hi
          exact hnew
        · exact hlaunch.named tag' i hi
  | respond =>
    dsimp only
    split_ifs with harmed
    · exact hdrain (by simpa using harmed)
    · exact hfinish _
    · cases hanonymous : s.anonymousFuture with
      | none => exact hfinish _
      | some future =>
        dsimp only
        split_ifs with hwait
        · simp only [Bool.and_eq_true, Bool.not_eq_true'] at hwait
          exact ⟨⟨⟨h, h.anonymous future hanonymous⟩, trivial⟩,
            weight_suspend (by simp [blocked, hwait.2]) rfl (by simp [rank])⟩
        · exact hfinish _
  | route server speculative options =>
    dsimp only
    cases x.resolveDNSRoute server options s.effectiveOptions with
    | none => exact hnext _ rfl h
    | some route =>
      obtain ⟨transport, resolved⟩ := route
      have hlaunch := h.launch (x := x) "" transport resolved
      cases harmed : s.armedRules.isEmpty with
      | false =>
        simp only [Bool.not_false, if_true]
        split_ifs with hspeculative
        · simp only [Bool.and_eq_true] at hspeculative
          refine ⟨Launched.drain ⟨hlaunch.anonymous, hlaunch.named, fun i hi => ?_, hlaunch.armed⟩,
            weight_lt_of_awaited le_rfl ?_⟩
          · cases hi
            exact hlast _ _ _
          · simp [awaited, unresolved, launchDNSEvaluate, hspeculative.2]
        · exact hdrain harmed
      | true =>
        simp only [Bool.not_true, Bool.false_eq_true, if_false]
        cases hterminal : s.terminalFuture with
        | none => exact hpending _ trivial
        | some i =>
          split_ifs
          · exact hpending _ (h.terminal i hterminal)
          · exact hpending _ trivial
  | reject action =>
    dsimp only
    split_ifs with harmed
    · exact hdrain (by simpa using harmed)
    · cases rejectResult x.message action with
      | none => exact hnext _ rfl h
      | some result => exact hfinish _
  | predefined response =>
    dsimp only
    split_ifs with harmed
    · exact hdrain (by simpa using harmed)
    · exact hfinish _

theorem exchange_of_commit {armed : ArmedRule κ} {pending : PendingExchange} (h : x.commit s armed = some (.inr pending)) :
    ∃ rule transport options, pending = .exchange rule transport options := by
  simp only [commit] at h
  cases haction : armed.rule.action with simp only [haction] at h
  | route server speculative options =>
    split at h
    · cases h
    · obtain rfl := Sum.inr.inj (some.inj h)
      exact ⟨_, _, _, rfl⟩
  | respond =>
    split_ifs at h
    · cases h
    · split at h <;> cases h
  | reject action =>
    obtain ⟨result, -, hresult⟩ := map_eq_some_iff.mp h
    cases hresult
  | predefined response | routeOptions options | evaluate server tag speculative options =>
    cases h

theorem Ready.placed {w : Walk κ} (h : Ready x w) : Placed x w := by
  intro index hphase
  have hlaunched := h.indexed.phase
  rw [hphase] at hlaunched
  exact hlaunched

section Sweeping

variable {suspension : Option Suspension} {index : ℕ}

theorem live_sweeping : Live ⟨.sweeping suspension index, s⟩ ↔ (suspension.isSome → StillWaiting s index) := by
  cases suspension <;> simp [Live]

theorem StillWaiting.pass (h : StillWaiting s index) {armed : ArmedRule κ} (hj : s.armedRules[index]? = some armed)
    (hready : ∃ i ∈ armed.futures, s.isResolved i = false) : StillWaiting s (index + 1) := by
  intro j hlt other hget
  obtain hless | rfl := Nat.lt_succ_iff_lt_or_eq.mp hlt
  · exact h j hless other hget
  · cases hj.symm.trans hget
    obtain ⟨i, hi, hopen⟩ := hready
    exact ⟨i, hi, fun _ => hopen⟩

theorem steps_sweep (h : Ready x ⟨.sweeping suspension index, s⟩) :
    Steps x ⟨.sweeping suspension index, s⟩ (x.sweep s suspension index) := by
  have hlaunched : Launched s := h.indexed.launched
  have hstill := live_sweeping.mp h.live
  have hdrop : ∀ rest, rest ⊆ s.armedRules → Launched { s with armedRules := rest } := fun rest hrest =>
    hlaunched.grow le_rfl rfl rfl rfl hrest
  have hswept : Launched { s with armedRules := s.armedRules.eraseIdx index } := hdrop _ fun _ ha => eraseIdx_subset ha
  have hphase : ∀ index' rest, PhaseLaunched x { s with armedRules := rest } (.sweeping suspension index') := by
    intro index' rest
    have hphase := h.indexed.phase
    cases suspension with
    | none | some suspension => exact hphase
  simp only [sweep]
  cases hj : s.armedRules[index]? with
  | none =>
    cases suspension with
    | none => exact ⟨hlaunched.next, weight_next (h.placed index rfl) rfl (by simp [rulesLeft])⟩
    | some suspension =>
      refine ⟨⟨⟨hlaunched, h.indexed.phase⟩, fun j hlt armed hget => ?_⟩, weight_lt_of_rank ?_ le_rfl le_rfl ?_⟩
      · exact hstill rfl j (lt_of_lt_of_le hlt (List.getElem?_eq_none_iff.mp hj)) armed hget
      · cases suspension <;> exact le_rfl
      · simp only [rank]
        split_ifs <;> omega
  | some armed =>
    have hshorter : (s.armedRules.eraseIdx index).length < s.armedRules.length := by
      rw [List.length_eraseIdx_of_lt (getElem?_lt hj)]
      have := getElem?_lt hj
      omega
    have hdropped : Steps x ⟨.sweeping suspension index, s⟩
        ⟨.sweeping suspension index, { s with armedRules := s.armedRules.eraseIdx index }⟩ :=
      ⟨⟨⟨hswept, hphase _ _⟩, live_sweeping.mpr fun hs j hlt other hget =>
        hstill hs j hlt other ((getElem?_eraseIdx_of_lt hlt).symm.trans hget)⟩, weight_lt_of_armed le_rfl rfl hshorter⟩
    dsimp only
    split_ifs with hready
    · refine ⟨⟨⟨hlaunched, hphase _ _⟩, live_sweeping.mpr fun hs => (hstill hs).pass hj (by simpa using hready)⟩, ?_⟩
      simp only [weight, Prod.Lex.toLex_lt_toLex, unswept, true_and]
      have hrules : x.rulesLeft s (.sweeping suspension (index + 1)) = x.rulesLeft s (.sweeping suspension index) := by
        cases suspension with
        | none => rfl
        | some suspension => cases suspension <;> rfl
      have hrank : rank s (.sweeping suspension (index + 1)) = rank s (.sweeping suspension index) := by
        cases suspension <;> rfl
      have := getElem?_lt hj
      omega
    · cases hcommit : x.commit s armed with
      | none => exact hdropped
      | some committed =>
        cases committed with
        | inl result => exact ⟨hswept.finish _, weight_lt_of_armed (Nat.zero_le _) rfl hshorter⟩
        | inr pending =>
          obtain ⟨rule, transport, options, rfl⟩ := exchange_of_commit hcommit
          cases suspension with
          | none =>
            exact ⟨(hdrop [] (nil_subset _)).exchange _ _ _,
              weight_lt_of_armed (Nat.zero_le _) rfl (by simpa using by omega)⟩
          | some suspension =>
            exact ⟨⟨⟨hswept, trivial⟩, trivial⟩, weight_lt_of_armed (Nat.zero_le _) rfl hshorter⟩
    · exact hdropped

end Sweeping

theorem PhaseLaunched.grow {phase : Phase} (h : PhaseLaunched x s phase) (hlength : s.futures.length ≤ t.futures.length)
    (hrule : t.ruleIndex = s.ruleIndex) : PhaseLaunched x t phase := by
  have hlt : s.ruleIndex < x.rules.length → t.ruleIndex < x.rules.length := fun hs => hrule ▸ hs
  have hpending : ∀ {pending}, PendingLaunched s pending → PendingLaunched t pending := by
    intro pending hp
    cases pending with
    | exchange => trivial
    | future i => exact Nat.lt_of_lt_of_le hp hlength
  have hsuspension : ∀ {suspension}, SuspensionLaunched s suspension → SuspensionLaunched t suspension := by
    intro suspension hs
    cases suspension with
    | await i => exact Nat.lt_of_lt_of_le hs hlength
    | drain => trivial
    | pending pending => exact hpending hs
  cases phase with
  | head | finished => trivial
  | settling suspension | sweeping suspension index =>
    cases suspension with
    | none => exact hlt h
    | some suspension => exact hsuspension h
  | binding | matching => exact hlt h
  | deciding suspension | waiting suspension => exact hsuspension h
  | exchanging pending => exact hpending h

variable {w : Walk κ}

theorem Indexed.grow (h : Indexed x w) (hlength : w.state.futures.length ≤ t.futures.length)
    (hanonymous : t.anonymousFuture = w.state.anonymousFuture) (hnamed : t.namedFutures = w.state.namedFutures)
    (hterminal : t.terminalFuture = w.state.terminalFuture) (harmed : t.armedRules = w.state.armedRules)
    (hrule : t.ruleIndex = w.state.ruleIndex) : Indexed x ⟨w.phase, t⟩ :=
  ⟨h.launched.grow hlength hanonymous hnamed hterminal (harmed ▸ Subset.refl _), h.phase.grow hlength hrule⟩

variable {w w' : Walk κ}

theorem StillWaiting.disturb (h : StillWaiting s n) (harmed : t.armedRules = s.armedRules) (ht : ¬ Quiet t) :
    StillWaiting t n := by
  intro j hj armed hget
  obtain ⟨i, hi, -⟩ := h j hj armed (harmed ▸ hget)
  exact ⟨i, hi, fun hquiet => absurd hquiet ht⟩

theorem Live.disturb (h : Live w) (harmed : t.armedRules = w.state.armedRules) (ht : ¬ Quiet t) :
    Live ⟨w.phase, t⟩ := by
  obtain ⟨phase, s⟩ := w
  cases phase with
  | sweeping suspension index =>
    cases suspension with
    | none => trivial
    | some suspension => exact StillWaiting.disturb h harmed ht
  | deciding suspension =>
    have hstill : StillWaiting t s.armedRules.length := StillWaiting.disturb h harmed ht
    simp only [Live, harmed]
    exact hstill
  | waiting suspension =>
    cases suspension with
    | await i => exact fun hquiet => absurd hquiet ht
    | drain =>
      obtain ⟨hsome, hwaiting⟩ := h
      have hstill : StillWaiting t s.armedRules.length := hwaiting.disturb harmed ht
      simp only [Live, Blocked, harmed]
      exact ⟨hsome, hstill⟩
    | pending => exact h
  | head | settling | binding | matching | exchanging | finished => trivial

theorem Ready.advance (h : Ready x w) (hstep : x.advance w.state w.phase = some w') : Steps x w w' := by
  obtain ⟨phase, s⟩ := w
  have hlaunched : Launched s := h.indexed.launched
  cases phase with
  | head =>
    simp only [Exchange.advance] at hstep
    cases hrule : x.rules[s.ruleIndex]? with
    | none =>
      simp only [hrule] at hstep
      split_ifs at hstep with harmed
      · cases hstep
        exact ⟨hlaunched.drain, weight_suspend (blocked_drain (by simpa using harmed)) rfl (by simp [rank])⟩
      · cases hstep
        exact ⟨hlaunched.exchange _ _ _, weight_pending (by simp [rulesLeft])⟩
    | some rule =>
      simp only [hrule] at hstep
      cases hstep
      have hlt := getElem?_lt hrule
      split_ifs
      all_goals exact ⟨⟨⟨hlaunched, hlt⟩, trivial⟩, weight_lt_of_rank le_rfl le_rfl le_rfl (by simp [rank])⟩
  | settling suspension =>
    have hsettled : Launched (x.settleDNSFutures s) :=
      hlaunched.grow (by simp [settleDNSFutures]) rfl rfl rfl fun _ ha => ha
    have hlength : s.futures.length ≤ (x.settleDNSFutures s).futures.length := by simp [settleDNSFutures]
    cases suspension with
    | none =>
      cases hstep
      exact ⟨⟨⟨hsettled, h.indexed.phase⟩, trivial⟩, weight_settle le_rfl (by simp [rank]) rfl⟩
    | some suspension =>
      cases hstep
      have hphase : PhaseLaunched x s (.sweeping (some suspension) 0) := h.indexed.phase
      refine ⟨⟨⟨hsettled, hphase.grow hlength rfl⟩, fun j hj => absurd hj (Nat.not_lt_zero j)⟩, weight_settle ?_ ?_ ?_⟩
      · cases suspension <;> exact le_rfl
      · simp only [rank]
        split_ifs <;> omega
      · simp only [rank, blocked_settle]
  | binding =>
    obtain ⟨rule, hrule, rfl⟩ := map_eq_some_iff.mp hstep
    have hlt := getElem?_lt hrule
    split_ifs
    · exact ⟨⟨⟨hlaunched.arm rule, h.indexed.phase⟩, trivial⟩, weight_lt_of_rulesLeft (Nat.lt_succ_self _)⟩
    · exact ⟨(hlaunched.arm rule).next, weight_next hlt rfl (by simp [rulesLeft])⟩
    · split
      · rename_i future rest hpending
        have hmem : future ∈ s.pendingFutures rule := hpending ▸ mem_cons_self
        have hopen : s.isResolved future = false := (mem_pendingFutures.mp hmem).2
        exact ⟨⟨⟨hlaunched, hlaunched.pending hmem⟩, trivial⟩,
          weight_suspend (by simp [blocked, hopen]) rfl (by simp [rank])⟩
      · exact ⟨⟨⟨hlaunched, h.indexed.phase⟩, trivial⟩, weight_lt_of_rank le_rfl le_rfl le_rfl (by simp [rank])⟩
  | matching =>
    obtain ⟨rule, hrule, rfl⟩ := map_eq_some_iff.mp hstep
    split_ifs
    · exact steps_act hlaunched hrule
    · exact ⟨hlaunched.next, weight_next (getElem?_lt hrule) rfl (by simp [rulesLeft])⟩
  | sweeping suspension index =>
    cases hstep
    exact steps_sweep h
  | deciding suspension =>
    cases suspension with
    | pending pending =>
      cases hstep
      exact ⟨⟨⟨hlaunched, h.indexed.phase⟩, trivial⟩, weight_lt_of_rank le_rfl le_rfl le_rfl (by simp [rank, blocked])⟩
    | await i =>
      cases hstep
      split_ifs with hblocked
      · exact ⟨⟨⟨hlaunched, h.indexed.phase⟩, fun _ => by simpa [blocked] using hblocked⟩,
          weight_lt_of_rank le_rfl le_rfl le_rfl (by simp [rank, hblocked])⟩
      · exact ⟨⟨⟨hlaunched, trivial⟩, trivial⟩, weight_lt_of_rank le_rfl le_rfl le_rfl (by simp [rank, hblocked])⟩
    | drain =>
      cases hstep
      split_ifs with hblocked
      · exact ⟨⟨⟨hlaunched, h.indexed.phase⟩, by simpa [blocked] using hblocked, h.live⟩,
          weight_lt_of_rank le_rfl le_rfl le_rfl (by simp [rank, hblocked])⟩
      · exact ⟨⟨⟨hlaunched, trivial⟩, trivial⟩, weight_lt_of_rank le_rfl le_rfl le_rfl (by simp [rank, hblocked])⟩
  | waiting suspension =>
    simp only [Exchange.advance] at hstep
    split_ifs at hstep with hwake
    cases hstep
    have hphase : PhaseLaunched x s (.settling (some suspension)) := h.indexed.phase
    refine ⟨⟨⟨hlaunched.grow le_rfl rfl rfl rfl fun _ ha => ha, hphase.grow le_rfl rfl⟩, trivial⟩,
      weight_lt_of_awaited ?_ (by simp [awaited, unresolved, hwake])⟩
    cases suspension with
    | pending => exact Nat.zero_le _
    | await | drain => exact le_rfl
  | exchanging pending =>
    have hfinish : ∀ result, Steps x ⟨.exchanging pending, s⟩ (s.finish result) := fun result =>
      ⟨hlaunched.finish _, weight_lt_of_rank le_rfl le_rfl le_rfl (by simp [rank])⟩
    cases pending with
    | exchange =>
      cases hstep
      exact hfinish _
    | future i =>
      simp only [Exchange.advance] at hstep
      split at hstep
      · cases hstep
      · split_ifs at hstep
        cases hstep
        exact hfinish _
  | finished => cases hstep

theorem Ready.step (h : Ready x w) {a : Step} (hstep : x.step w a = some w') : Steps x w w' := by
  cases a with
  | advance => exact h.advance hstep
  | complete i =>
    obtain ⟨t, ht, rfl⟩ := map_eq_some_iff.mp hstep
    refine ⟨?_, weight_complete ht⟩
    obtain ⟨f, -, -, rfl⟩ := complete_eq ht
    exact ⟨h.indexed.grow (by simp) rfl rfl rfl rfl rfl,
      h.live.disturb rfl fun hquiet => absurd hquiet.2 (Nat.succ_ne_zero _)⟩
  | signal =>
    obtain ⟨t, ht, rfl⟩ := map_eq_some_iff.mp hstep
    refine ⟨?_, weight_signal ht⟩
    obtain ⟨-, rfl⟩ := signal_eq ht
    exact ⟨h.indexed.grow le_rfl rfl rfl rfl rfl rfl, h.live.disturb rfl fun hquiet => Bool.noConfusion hquiet.1⟩

theorem ready_start : Ready x x.start := by
  refine ⟨⟨⟨?_, ?_, ?_, ?_⟩, trivial⟩, trivial⟩ <;> simp [start]

def needed (s : WalkState κ) : Suspension → List ℕ
  | .await i => [i]
  | .drain => s.armedRules.flatMap ArmedRule.futures
  | .pending _ => []

theorem exists_needed {suspension : Suspension} (h : Ready x ⟨.waiting suspension, s⟩) :
    ∃ i ∈ needed s suspension, i < s.futures.length ∧ (Quiet s → s.isResolved i = false) := by
  cases suspension with
  | await i => exact ⟨i, mem_singleton_self i, h.indexed.phase, h.live⟩
  | pending => exact absurd h.live not_false
  | drain =>
    obtain ⟨hsome, hwaiting⟩ := h.live
    have hlt : 0 < s.armedRules.length := length_pos_iff.mpr hsome
    obtain ⟨i, hi, hopen⟩ := hwaiting 0 hlt _ (getElem?_eq_getElem hlt)
    have hmem : s.armedRules[0] ∈ s.armedRules := getElem_mem hlt
    exact ⟨i, mem_flatMap.mpr ⟨_, hmem, hi⟩, h.indexed.launched.armed _ hmem i hi, hopen⟩

theorem enabled (h : Ready x w) :
    (∃ result, w.phase = .finished result) ∨ (∃ w', x.advance w.state w.phase = some w') ∨
      (x.watched w = [] ∧ (0 < w.state.signals ∨ ∃ i < w.state.futures.length, w.state.isResolved i = false)) := by
  obtain ⟨phase, s⟩ := w
  cases phase with
  | finished result => exact .inl ⟨result, rfl⟩
  | head =>
    right; left
    simp only [advance]
    repeat' split
    all_goals exact ⟨_, rfl⟩
  | settling suspension | deciding suspension =>
    right; left
    cases suspension <;> exact ⟨_, rfl⟩
  | binding | matching =>
    have hlt : s.ruleIndex < x.rules.length := h.indexed.phase
    exact .inr (.inl ⟨_, map_eq_some_iff.mpr ⟨_, getElem?_eq_getElem hlt, rfl⟩⟩)
  | sweeping suspension index => exact .inr (.inl ⟨_, rfl⟩)
  | waiting suspension =>
    right
    cases hwake : s.wake with
    | true =>
      left
      simp only [advance, hwake, if_true]
      exact ⟨_, rfl⟩
    | false =>
      refine .inr ⟨rfl, ?_⟩
      obtain ⟨i, -, hlt, hopen⟩ := exists_needed h
      by_cases hsignals : s.signals = 0
      · exact .inr ⟨i, hlt, hopen ⟨hwake, hsignals⟩⟩
      · exact .inl (Nat.pos_of_ne_zero hsignals)
  | exchanging pending =>
    right
    cases pending with
    | exchange => exact .inl ⟨_, rfl⟩
    | future i =>
      have hlt : i < s.futures.length := h.indexed.phase
      have hget := getElem?_eq_getElem hlt
      cases hopen : s.futures[i].resolved with
      | true =>
        left
        simp only [advance, hget, hopen, if_true]
        exact ⟨_, rfl⟩
      | false => exact .inr ⟨rfl, .inr ⟨i, hlt, by simp [WalkState.isResolved, hget, hopen]⟩⟩

theorem exists_callback (h : 0 < w.state.signals ∨ ∃ i < w.state.futures.length, w.state.isResolved i = false) :
    ∃ a w', (a = .signal ∨ ∃ i, a = .complete i) ∧ x.step w a = some w' := by
  rcases h with hpos | ⟨i, hlt, hopen⟩
  · refine ⟨.signal, ⟨w.phase, { w.state with signals := w.state.signals - 1, wake := true }⟩, .inl rfl, ?_⟩
    simp [step, signal, Nat.ne_of_gt hpos]
  · have hget := getElem?_eq_getElem hlt
    have hresolved : w.state.futures[i].resolved = false := by simpa [WalkState.isResolved, hget] using hopen
    exact ⟨.complete i, _, .inr ⟨i, rfl⟩, by simp only [step, complete, hget, hresolved]; rfl⟩

theorem enabled_calm {w : Walk κ} (h : Ready x w) :
    (∃ result, w.phase = .finished result) ∨ ∃ a w', x.calm w a = true ∧ x.step w a = some w' := by
  rcases enabled h with hfinished | ⟨w', hw'⟩ | ⟨hwatched, hcallback⟩
  · exact .inl hfinished
  · exact .inr ⟨.advance, w', rfl, hw'⟩
  · right
    obtain ⟨a, w', ha, hw'⟩ := exists_callback hcallback
    refine ⟨a, w', ?_, hw'⟩
    rcases ha with rfl | ⟨i, rfl⟩
    · rfl
    · cases hf : w.state.futures[i]? <;> simp [calm, hwatched, hf]

theorem returns (haccepted : Accepted x.rules) :
    Inevitable x.step (x.calm · ·) (fun w => ∃ result, w.phase = .finished result) x.start := by
  apply Inevitable.of_weight (I := fun w => Sound x w ∧ Ready x w) x.weight
  · rintro w a w' ⟨hsound, hready⟩ hcalm hstep
    exact ⟨hsound.step haccepted hcalm hstep, (hready.step hstep).ready⟩
  · rintro w a w' ⟨_, hready⟩ _ hstep
    exact (hready.step hstep).lighter
  · rintro w ⟨_, hready⟩
    exact enabled_calm hready
  · exact ⟨sound_start, ready_start⟩

end Exchange

end Hydracore.Dns
