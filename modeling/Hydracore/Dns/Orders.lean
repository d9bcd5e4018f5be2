import Hydracore.Dns.Waking

namespace Hydracore.Dns

open Rules Systems Option Exchange.Step List

variable {κ : Type}

def DNSRuleAction.plain : DNSRuleAction → DNSRuleAction
  | .evaluate server tag _ options => .evaluate server tag false options
  | .route server _ options => .route server false options
  | action => action

def DNSRule.plain (rule : DNSRule κ) : DNSRule κ := { rule with action := rule.action.plain }

namespace Exchange

def plain (x : Exchange κ) : Exchange κ := { x with rules := x.rules.map DNSRule.plain }

section Plain

variable (x : Exchange κ) (i : ℕ) (rule : DNSRule κ) (bound : Bound)

theorem rules_plain : x.plain.rules[i]? = x.rules[i]?.map DNSRule.plain := getElem?_map

theorem holds_plain : x.plain.holds rule.plain bound = x.holds rule bound := rfl

theorem accumulate_plain : x.plain.accumulate i rule.plain bound = x.accumulate i rule bound := by
  obtain ⟨tree, race, action⟩ := rule
  cases action <;> rfl

theorem outcome_plain : x.plain.outcome i rule.plain bound = x.outcome i rule bound := by
  obtain ⟨tree, race, action⟩ := rule
  cases action <;> rfl

theorem before_plain : x.plain.before i = x.before i := by
  induction i with
  | zero => rfl
  | succ i ih =>
    rw [before, before, rules_plain]
    cases x.rules[i]? with
    | none => exact ih
    | some rule =>
      simp only [map_some, ih, holds_plain, accumulate_plain]
      rfl

theorem decided_plain : x.plain.decided i = x.decided i := by
  rw [decided, decided, rules_plain, before_plain]
  cases x.rules[i]? with
  | none => rfl
  | some rule =>
    simp only [map_some, holds_plain, outcome_plain]
    rfl

theorem raced_plain : x.plain.raced i = x.raced i := by
  rw [raced, raced, rules_plain, before_plain]
  cases x.rules[i]? with
  | none => rfl
  | some rule =>
    simp only [map_some, holds_plain, outcome_plain]
    rfl

theorem isOutcome_plain {result : ExchangeResult} : x.plain.IsOutcome result ↔ x.IsOutcome result := by
  simp only [IsOutcome, First, decided_plain, raced_plain]

end Plain

variable {x : Exchange κ} {result result' : ExchangeResult}

theorem First.unique {j j' : ℕ} (h : x.First j result) (h' : x.First j' result') : result = result' := by
  obtain hlt | rfl | hlt := lt_trichotomy j j'
  · have := h'.2 j hlt
    simp [h.1] at this
  · exact some.inj (h.1.symm.trans h'.1)
  · have := h.2 j' hlt
    simp [h'.1] at this

theorem IsOutcome.unique (hraces : ∀ rule ∈ x.rules, rule.race = false)
    (h : x.IsOutcome result) (h' : x.IsOutcome result') : result = result' := by
  have hnone : ∀ k, x.raced k = none := by
    intro k
    rw [raced]
    cases hrule : x.rules[k]? with
    | none => rfl
    | some rule => simp [hraces rule (mem_of_getElem? hrule)]
  obtain ⟨j, final, hfirst, hresult⟩ := h
  obtain ⟨j', final', hfirst', hresult'⟩ := h'
  obtain rfl : result = final := by simpa [hnone] using hresult
  obtain rfl : result' = final' := by simpa [hnone] using hresult'
  exact hfirst.unique hfirst'

theorem exchangeWithRules_outcome (x : Exchange κ) (haccepted : Accepted x.rules) :
    Inevitable x.step (x.calm · ·) (fun w => ∃ result, w.phase = .finished result) x.start ∧
      ∀ as w result, Run x.step (x.calm · ·) x.start as w → w.phase = .finished result →
        ∀ y : Exchange κ, y.plain = x.plain → y.IsOutcome result ∧
          ((∀ rule ∈ y.rules, rule.race = false) → Accepted y.rules → ∀ as' w' result',
            Run y.step (y.calm · ·) y.start as' w' → w'.phase = .finished result' → result' = result) := by
  refine ⟨returns haccepted, ?_⟩
  intro as w result hrun hfinished y hplain
  have hphase := (sound_of_run haccepted hrun).phase
  rw [hfinished] at hphase
  have houtcome : y.IsOutcome result := by
    rw [← isOutcome_plain, hplain, isOutcome_plain]
    exact hphase
  refine ⟨houtcome, ?_⟩
  intro hraces haccepted' as' w' result' hrun' hfinished'
  have hphase' := (sound_of_run haccepted' hrun').phase
  rw [hfinished'] at hphase'
  exact IsOutcome.unique hraces hphase' houtcome

end Exchange

section Lookup

def lookupMessage : Message :=
  ⟨⟨0, [.a (some (.v4 0x08080808))], [], []⟩, 1, true, false, true, true, [⟨"example.org.", 1, 1⟩]⟩

def lookupOptions : RuleActionDNSRouteOptions := ⟨false, false, none, 0, none, false⟩

def condition (items : List (RuleItem Unit)) (matchResponse : Option String) : Rule Unit :=
  .default ⟨items, [], [], [], [], [], false⟩ none matchResponse

def lookup : Exchange Unit where
  transports := fun server => if server = "remote" then some ⟨"remote", false⟩ else none
  defaultTransport := ⟨"local", false⟩
  defaultDomainStrategy := .preferIPv4
  rules := [⟨condition [.field fun _ => true] none, false, .evaluate "remote" "a" false lookupOptions⟩,
    ⟨condition [.response fun response => response.rcode = rcodeSuccess] (some "a"), false, .respond⟩]
  message := lookupMessage
  options := ⟨.asIS, .asIS, false, false, none, 0, none, false⟩
  allowFakeIP := true
  metadata := ⟨⟨none, "", 0⟩, ⟨none, "", 0⟩, "example.org", [], none, fun _ => none, false, false, ()⟩
  answer := fun query => if query.rule = 0 then .ok lookupMessage else .error (.exchange "refused")

theorem lookup_accepted : Accepted lookup.rules := by
  constructor
  · decide
  · decide
  · intro rule hrule
    simp only [lookup, mem_cons, not_mem_nil, or_false] at hrule
    rcases hrule with rfl | rfl <;> exact .default nofun

def Walk.returned (failed : Bool) (w : Walk Unit) : Bool :=
  match w.phase with
  | .finished result => result.err.isSome = failed
  | _ => false

theorem exists_returned {o : Option (Walk Unit)} {failed : Bool} (h : o.any (Walk.returned failed) = true) :
    ∃ w result, o = some w ∧ w.phase = .finished result ∧ result.err.isSome = failed := by
  cases o with
  | none => cases h
  | some w =>
    simp only [any_some, Walk.returned] at h
    cases hphase : w.phase with
    | finished result => exact ⟨w, result, rfl, hphase, by simpa [hphase] using h⟩
    | head | settling | binding | matching | sweeping | deciding | waiting | exchanging => simp [hphase] at h

def lookupSteps : List Exchange.Step :=
  replicate 8 advance ++ ([complete 0, .signal] ++ replicate 8 advance)

theorem exchangeWithRules_outcome_lookup :
    Inevitable lookup.step (lookup.calm · ·) (fun w => ∃ result, w.phase = .finished result) lookup.start ∧
      ∃ w result, Run lookup.step (lookup.calm · ·) lookup.start lookupSteps w ∧ w.phase = .finished result ∧
        lookup.IsOutcome result := by
  have houtcome := Exchange.exchangeWithRules_outcome lookup lookup_accepted
  refine ⟨houtcome.1, ?_⟩
  have hany : (execWhile lookup.step (lookup.calm · ·) lookup.start lookupSteps).any (Walk.returned false) = true := by
    decide +kernel
  obtain ⟨w, result, hexec, hfinished, _⟩ := exists_returned hany
  have hrun := Run.of_execWhile hexec
  exact ⟨w, result, hrun, hfinished, (houtcome.2 _ w result hrun hfinished lookup rfl).1⟩

def unpublishedSteps : List Exchange.Step :=
  [advance, .advance, .advance, .advance, .complete 0] ++ replicate 7 advance

theorem unpublished_completion_ignored : Accepted lookup.rules ∧ ∃ w result,
    Run lookup.step anyStep lookup.start unpublishedSteps w ∧ w.phase = .finished result ∧ ¬ lookup.IsOutcome result := by
  refine ⟨lookup_accepted, ?_⟩
  have hany : (exec lookup.step lookup.start unpublishedSteps).any (Walk.returned true) = true := by decide +kernel
  obtain ⟨w, result, hexec, hfinished, hfailed⟩ := exists_returned hany
  refine ⟨w, result, Run.of_exec hexec, hfinished, ?_⟩
  intro houtcome
  -- the second rule decides, with the response of the first
  obtain ⟨response, hdecided⟩ : ∃ response, lookup.decided 1 = some response :=
    Option.isSome_iff_exists.mp (by decide +kernel)
  have herr : (lookup.decided 1).all (fun result => result.err.isNone) = true := by decide +kernel
  rw [hdecided, Option.all_some] at herr
  have hfirst : ∀ i < 1, lookup.decided i = none := by
    intro i hi
    obtain rfl : i = 0 := by omega
    exact Option.isNone_iff_eq_none.mp (by decide +kernel)
  have hraces : ∀ k < 1, lookup.raced k = none := by
    intro k hk
    obtain rfl : k = 0 := by omega
    exact Option.isNone_iff_eq_none.mp (by decide +kernel)
  have hsame := Exchange.IsOutcome.unique (by decide) houtcome (lookup.isOutcome_of_decided hfirst hraces hdecided)
  rw [hsame, Option.isNone_iff_eq_none.mp herr] at hfailed
  cases hfailed

end Lookup

namespace Exchange

variable {x : Exchange κ}

theorem ready_of_run {as : List Step} {w : Walk κ} (h : Run x.step anyStep x.start as w) : Ready x w :=
  h.invariant (fun hready _ hstep => (hready.step hstep).ready) ready_start

theorem returns_anyway (x : Exchange κ) :
    Inevitable x.step anyStep (fun w => ∃ result, w.phase = .finished result) x.start := by
  apply Inevitable.of_weight (I := Ready x) x.weight
  · intro w a w' hready _ hstep
    exact (hready.step hstep).ready
  · intro w a w' hready _ hstep
    exact (hready.step hstep).lighter
  · intro w hready
    rcases enabled hready with hfinished | ⟨w', hw'⟩ | ⟨-, hcallback⟩
    · exact .inl hfinished
    · exact .inr ⟨.advance, w', trivial, hw'⟩
    · obtain ⟨a, w', -, hw'⟩ := exists_callback hcallback
      exact .inr ⟨a, w', trivial, hw'⟩
  · exact ready_start

theorem no_lost_wakeup (x : Exchange κ) :
    (∀ as w suspension, Run x.step anyStep x.start as w → w.phase = .waiting suspension →
      w.state.futures ≠ [] ∧ ((∃ i ∈ needed w.state suspension, w.state.isResolved i = false) ∨
        w.state.wake = true ∨ 0 < w.state.signals)) ∧
    Inevitable x.step anyStep (fun w => ∃ result, w.phase = .finished result) x.start ∧
    ∀ as w, Run x.step anyStep x.start as w → (∀ i < w.state.futures.length, w.state.isResolved i = true) →
      w.state.signals = 0 → (∃ result, w.phase = .finished result) ∨ ∃ w', x.step w .advance = some w' := by
  refine ⟨?_, returns_anyway x, ?_⟩
  · rintro as ⟨phase, s⟩ suspension hrun rfl
    obtain ⟨i, hi, hlt, hopen⟩ := exists_needed (ready_of_run hrun)
    refine ⟨ne_nil_of_length_pos (Nat.zero_lt_of_lt hlt), ?_⟩
    by_cases hquiet : Quiet s
    · exact .inl ⟨i, hi, hopen hquiet⟩
    · right
      cases hwake : s.wake with
      | true => exact .inl rfl
      | false => exact .inr (Nat.pos_of_ne_zero fun hsignals => hquiet ⟨hwake, hsignals⟩)
  · intro as w hrun hresolved hsignals
    rcases enabled (ready_of_run hrun) with hfinished | hadvance | ⟨-, hpos | ⟨i, hlt, hopen⟩⟩
    · exact .inl hfinished
    · exact .inr hadvance
    · omega
    · rw [hresolved i hlt] at hopen
      cases hopen

end Exchange

def Walk.unwoken (w : Walk Unit) : Bool :=
  match w.phase with
  | .waiting (.await 0) => w.state.isResolved 0 && w.state.armedRules.isEmpty && !w.state.wake
  | _ => false

def inFlightSteps : List Exchange.Step := List.replicate 8 Exchange.Step.advance ++ [Exchange.Step.complete 0]

theorem wakeup_in_flight : ∃ w, Run lookup.step anyStep lookup.start inFlightSteps w ∧ w.phase = .waiting (.await 0) ∧
    (∀ i ∈ Exchange.needed w.state (.await 0), w.state.isResolved i = true) ∧ w.state.armedRules = [] ∧
    w.state.wake = false := by
  refine (Run.exists_of_decide (P := fun w => w.unwoken = true) (by decide +kernel)).imp fun w ⟨hrun, hw⟩ => ⟨hrun, ?_⟩
  unfold Walk.unwoken at hw
  split at hw
  · rename_i hphase
    simp only [Bool.and_eq_true, List.isEmpty_iff, Bool.not_eq_true'] at hw
    obtain ⟨⟨hresolved, harmed⟩, hwake⟩ := hw
    refine ⟨hphase, fun i hi => ?_, harmed, hwake⟩
    obtain rfl := mem_singleton.mp hi
    exact hresolved
  · cases hw

end Hydracore.Dns
