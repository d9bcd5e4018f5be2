import Hydracore.Dns.Acting
import Hydracore.Systems.Runs
import Mathlib.Data.Prod.Lex

namespace Hydracore.Dns

open Systems

variable {κ : Type}

namespace Exchange

variable {x : Exchange κ} {s t : WalkState κ} {w w' : Walk κ} {phase phase' : Phase} {suspension : Suspension}
  {pending : PendingExchange}

theorem Sound.match (haccepted : Accepted x.rules) (h : Sound x ⟨.matching, s⟩)
    (hstep : x.advance s .matching = some w) : Sound x w := by
  have hconsistent : Consistent x s (x.before s.ruleIndex) := h.consistent
  obtain ⟨hopen, rule, hrule, hrace, hsettled, hresolved⟩ : Open x s s.ruleIndex 0 ∧ Bindable x s := h.phase
  have hmatch : rule.matchWith x.metadata (x.anonymousResponse s) s.namedResponses =
      x.holds rule (x.before s.ruleIndex) := by
    apply matchWith_eq_holds haccepted hconsistent hrule le_rfl
    · exact fun hanonymous => Consistent.bind_viewAt hconsistent.anonymous (hresolved hanonymous)
    · exact hsettled
  simp only [advance, hrule, Option.map_some, hmatch] at hstep
  cases hstep
  split_ifs with hholds
  · exact h.act hrule hrace hholds haccepted
  · have hnot : (!rule.race && x.holds rule (x.before s.ruleIndex)) = false := by simp [hholds]
    apply h.next ⟨Grown.refl, rfl, fun _ _ _ _ => rfl, rfl, rfl, rfl⟩ hopen
    · rw [decided_of_rule hrule, hnot]
      rfl
    · simp [raced_of_rule hrule, hrace]
    · rw [before_succ_of_not hrule hnot]
      exact hconsistent

theorem Sound.decide (h : Sound x ⟨.deciding suspension, s⟩)
    (hstep : x.advance s (.deciding suspension) = some w) : Sound x w := by
  have hphase : Suspended x s suspension := h.phase
  cases suspension with
  | pending pending =>
    cases hstep
    exact h.of_phase fresh_nil hphase.2
  | await | drain =>
    cases hstep
    split_ifs
    · exact h.of_phase fresh_nil hphase
    · exact h.of_phase fresh_nil (hphase.open_head (by simp))

theorem Sound.awake (h : Sound x w) {wake : Bool} {signals : ℕ} :
    Sound x ⟨w.phase, { w.state with wake := wake, signals := signals }⟩ := by
  have hlater : Later w.state { w.state with wake := wake, signals := signals } := ⟨Grown.refl, rfl, rfl, rfl, rfl⟩
  exact ⟨h.consistent.frame, h.terminal, h.fresh, PhaseHolds.mono hlater h.phase⟩

theorem Sound.receive (h : Sound x ⟨.waiting suspension, s⟩)
    (hstep : x.advance s (.waiting suspension) = some w) : Sound x w := by
  simp only [advance] at hstep
  split_ifs at hstep
  cases hstep
  have hsettling : Sound x ⟨.settling (some suspension), s⟩ := h.of_phase fresh_nil h.phase
  exact hsettling.awake

theorem Sound.exchange (h : Sound x ⟨.exchanging pending, s⟩)
    (hstep : x.advance s (.exchanging pending) = some w) : Sound x w := by
  obtain ⟨result, hresult, houtcome⟩ : Committed x s pending := h.phase
  cases pending with
  | exchange rule transport options =>
    cases hstep
    cases hresult
    exact h.finish houtcome
  | future i =>
    obtain ⟨f, hf, rfl⟩ := Option.map_eq_some_iff.mp hresult
    simp only [advance, hf] at hstep
    split_ifs at hstep
    cases hstep
    exact h.finish houtcome

theorem Sound.advance (haccepted : Accepted x.rules) (h : Sound x w)
    (hstep : x.advance w.state w.phase = some w') : Sound x w' := by
  obtain ⟨phase, s⟩ := w
  cases phase with
  | head => exact h.head haccepted hstep
  | settling suspension =>
    cases suspension with
    | none | some suspension =>
      cases hstep
      exact h.settle fun _ ht => ht
  | binding => exact h.bind hstep
  | matching => exact h.match haccepted hstep
  | sweeping suspension index =>
    cases hstep
    exact h.sweep haccepted
  | deciding suspension => exact h.decide hstep
  | waiting suspension => exact h.receive hstep
  | exchanging pending => exact h.exchange hstep
  | finished => cases hstep

def calm (x : Exchange κ) (w : Walk κ) : Step → Bool
  | .advance => true
  | .complete i => w.state.futures[i]?.all fun f => f.tag ∉ x.watched w
  | .signal => true

theorem Sound.step (haccepted : Accepted x.rules) (h : Sound x w) {a : Step}
    (hcalm : x.calm w a = true) (hstep : x.step w a = some w') : Sound x w' := by
  cases a with
  | advance => exact h.advance haccepted hstep
  | complete i =>
    obtain ⟨t, ht, rfl⟩ := Option.map_eq_some_iff.mp hstep
    apply h.complete ht
    intro f hf
    simpa [calm, hf] using hcalm
  | signal =>
    obtain ⟨t, ht, rfl⟩ := Option.map_eq_some_iff.mp hstep
    obtain ⟨-, rfl⟩ := signal_eq ht
    exact h.awake

theorem sound_start : Sound x x.start := by
  constructor
  · constructor <;> simp [start, before, Refers.none, WalkState.isSettled]
  · simp [start]
  · exact fresh_nil
  · constructor <;> simp [start]

theorem sound_of_run (haccepted : Accepted x.rules) {as : List Step}
    (hrun : Run x.step (x.calm · ·) x.start as w) : Sound x w :=
  hrun.invariant (fun h hcalm hstep => h.step haccepted hcalm hstep) sound_start

def unresolved (s : WalkState κ) : ℕ := s.futures.countP fun f => !f.resolved

def rulesLeft (x : Exchange κ) (s : WalkState κ) : Phase → ℕ
  | .settling (some (.pending _)) | .sweeping (some (.pending _)) _ | .deciding (.pending _) | .exchanging _
  | .finished _ => 0
  | .sweeping none _ => 2 * (x.rules.length - s.ruleIndex) + 1
  | _ => 2 * (x.rules.length - s.ruleIndex) + 2

def awaited (s : WalkState κ) : ℕ :=
  3 * (unresolved s + if s.terminalFuture.isNone then 2 else 0) + 2 * s.signals + s.wake.toNat

def rank (s : WalkState κ) : Phase → ℕ
  | .finished _ => 0
  | .exchanging _ => 1
  | .waiting _ => 1
  | .deciding suspension => if blocked s suspension then 2 else 10
  | .sweeping (some suspension) _ => if blocked s suspension then 3 else 11
  | .settling (some suspension) => if blocked s suspension then 4 else 12
  | .matching => 5
  | .binding => 6
  | .settling none => 7
  | .head => 8
  | .sweeping none _ => 9

def unswept (s : WalkState κ) : Phase → ℕ
  | .sweeping _ index => s.armedRules.length - index
  | _ => 0

def weight (x : Exchange κ) (w : Walk κ) : ℕ ×ₗ ℕ ×ₗ ℕ ×ₗ ℕ ×ₗ ℕ :=
  toLex (x.rulesLeft w.state w.phase, toLex (awaited w.state, toLex (w.state.armedRules.length,
    toLex (rank w.state w.phase, unswept w.state w.phase))))

section Weight

theorem weight_lt_of_rulesLeft (h : x.rulesLeft w'.state w'.phase < x.rulesLeft w.state w.phase) :
    x.weight w' < x.weight w := by
  simp only [weight, Prod.Lex.toLex_lt_toLex]
  exact .inl h

section

variable (hrules : x.rulesLeft t phase' ≤ x.rulesLeft s phase)
include hrules

theorem weight_lt_of_awaited (h : awaited t < awaited s) : x.weight ⟨phase', t⟩ < x.weight ⟨phase, s⟩ := by
  simp only [weight, Prod.Lex.toLex_lt_toLex]
  omega

theorem weight_lt_of_armed (hawaited : awaited t = awaited s)
    (h : t.armedRules.length < s.armedRules.length) : x.weight ⟨phase', t⟩ < x.weight ⟨phase, s⟩ := by
  simp only [weight, Prod.Lex.toLex_lt_toLex]
  omega

theorem weight_lt_of_rank (hawaited : awaited t ≤ awaited s)
    (harmed : t.armedRules.length ≤ s.armedRules.length) (h : rank t phase' < rank s phase) :
    x.weight ⟨phase', t⟩ < x.weight ⟨phase, s⟩ := by
  simp only [weight, Prod.Lex.toLex_lt_toLex]
  omega

end

theorem weight_next (hlt : s.ruleIndex < x.rules.length) (hrule : t.ruleIndex = s.ruleIndex)
    (hleft : 2 * (x.rules.length - s.ruleIndex) < x.rulesLeft w.state w.phase) : x.weight t.next < x.weight w := by
  apply weight_lt_of_rulesLeft
  have hnext : x.rulesLeft t.next.state t.next.phase = 2 * (x.rules.length - (t.ruleIndex + 1)) + 2 := rfl
  omega

theorem weight_pending (hleft : 0 < x.rulesLeft w.state w.phase) :
    x.weight (t.suspend (.pending pending)) < x.weight w := weight_lt_of_rulesLeft hleft

end Weight

theorem weight_suspend (hblocked : blocked s suspension = true)
    (hrules : x.rulesLeft s phase = 2 * (x.rules.length - s.ruleIndex) + 2) (hrank : 4 < rank s phase) :
    x.weight (s.suspend suspension) < x.weight ⟨phase, s⟩ := by
  refine weight_lt_of_rank ?_ le_rfl le_rfl ?_
  · rw [hrules]
    cases suspension with
    | pending => simp [blocked] at hblocked
    | await | drain => exact le_rfl
  · simpa only [rank, hblocked, if_true] using hrank

theorem blocked_drain (h : s.armedRules.isEmpty = false) : blocked s .drain = true := by
  simp [blocked, h]

theorem weight_settle {suspension : Option Suspension}
    (hrules : x.rulesLeft s phase ≤ x.rulesLeft s (.settling suspension))
    (hrank : rank s phase < rank s (.settling suspension)) (hsame : rank (x.settleDNSFutures s) phase = rank s phase) :
    x.weight ⟨phase, x.settleDNSFutures s⟩ < x.weight ⟨.settling suspension, s⟩ := by
  have hawaited : awaited (x.settleDNSFutures s) = awaited s := by
    simp only [awaited, unresolved, settleDNSFutures, List.countP_map]
    rfl
  exact weight_lt_of_rank hrules hawaited.le le_rfl (hsame ▸ hrank)

theorem blocked_settle (suspension : Suspension) : blocked (x.settleDNSFutures s) suspension = blocked s suspension := by
  cases suspension with
  | await => simp only [blocked, isResolved_settleDNSFutures]
  | drain | pending => rfl

theorem weight_complete {i : ℕ} (hstep : complete s i = some t) : x.weight ⟨phase, t⟩ < x.weight ⟨phase, s⟩ := by
  obtain ⟨f, hf, hresolved, rfl⟩ := complete_eq hstep
  obtain ⟨hlt, hget⟩ := List.getElem?_eq_some_iff.mp hf
  apply weight_lt_of_awaited
  · cases phase <;> exact le_rfl
  · have hpos : 0 < s.futures.countP fun f => !f.resolved :=
      List.countP_pos_iff.mpr ⟨f, List.mem_of_getElem? hf, by simp [hresolved]⟩
    have hcount : (s.futures.set i { f with resolved := true }).countP (fun f => !f.resolved) =
        (s.futures.countP fun f => !f.resolved) - 1 := by
      rw [List.countP_set hlt]
      simp [hget, hresolved]
    simp only [awaited, unresolved, hcount]
    omega

theorem weight_signal (hstep : signal s = some t) : x.weight ⟨phase, t⟩ < x.weight ⟨phase, s⟩ := by
  obtain ⟨hpos, rfl⟩ := signal_eq hstep
  apply weight_lt_of_awaited
  · cases phase <;> exact le_rfl
  · simp only [awaited, unresolved, Bool.toNat_true]
    omega

def Placed (x : Exchange κ) (w : Walk κ) : Prop :=
  ∀ index, w.phase = .sweeping none index → w.state.ruleIndex < x.rules.length

end Exchange

end Hydracore.Dns
