import Hydracore.Dns.Advancing

namespace Hydracore.Dns

open Systems Grown List

variable {κ : Type}

namespace Exchange

variable {x : Exchange κ} {s : WalkState κ} {rule : DNSRule κ}

theorem Sound.matching (h : Sound x ⟨.matching, s⟩) :
    Consistent x s (x.before s.ruleIndex) ∧ Open x s s.ruleIndex 0 :=
  ⟨h.consistent, h.phase.1⟩

section Act

variable (h : Sound x ⟨.matching, s⟩) (hrule : x.rules[s.ruleIndex]? = some rule) (hrace : rule.race = false)
  (hholds : x.holds rule (x.before s.ruleIndex) = true) (haccepted : Accepted x.rules)

include h hrule hrace hholds

theorem Sound.proceed {t : WalkState κ} (hahead : Ahead s t)
    (hnothing : x.outcome s.ruleIndex rule (x.before s.ruleIndex) = none)
    (hconsistent : Consistent x t (x.accumulate s.ruleIndex rule (x.before s.ruleIndex))) : Sound x t.next := by
  have hmatched : (!rule.race && x.holds rule (x.before s.ruleIndex)) = true := by simp [hrace, hholds]
  apply h.next hahead h.phase.1
  · rw [decided_of_rule hrule, if_pos hmatched, hnothing]
  · simp [raced_of_rule hrule, hrace]
  · rw [before_succ hrule hmatched]
    exact hconsistent

theorem Sound.isOutcome (hempty : s.armedRules = []) {result : ExchangeResult}
    (hresult : x.outcome s.ruleIndex rule (x.before s.ruleIndex) = some result) : x.IsOutcome result := by
  apply isOutcome_of_head h.phase.1 hempty
  rw [decided_of_rule hrule, if_pos (by simp [hrace, hholds]), hresult]

variable {options : RuleActionDNSRouteOptions} {speculative : Bool}

theorem Sound.launch_terminal {transport : Transport} {options : DNSQueryOptions}
    (houtcome : x.outcome s.ruleIndex rule (x.before s.ruleIndex) =
      some (exchangeResult transport (x.answer (x.query s.ruleIndex transport options)))) :
    Sound x ({ x.launchDNSEvaluate s "" transport options with
      terminalFuture := some s.futures.length, terminalIndex := s.ruleIndex }.suspend .drain) := by
  obtain ⟨hconsistent, hopen⟩ := h.matching
  constructor
  · exact (hconsistent.launch transport options).frame
  · rintro i ⟨⟩
    refine ⟨exchangeResult transport (x.answer (x.query s.ruleIndex transport options)), ?_, ?_⟩
    · simp [pendingResult, WalkState.suspend, launchDNSEvaluate, query]
    · simp only [WalkState.suspend]
      rw [decided_of_rule hrule, if_pos (by simp [hrace, hholds]), houtcome]
  · exact fresh_nil
  · exact Open.mono_head ⟨append _, rfl, rfl, rfl, rfl⟩ hopen

theorem Sound.act_route {server : String}
    (haction : rule.action = .route server speculative options) : Sound x (x.act s rule) := by
  obtain ⟨hconsistent, hopen⟩ := h.matching
  have houtcome : x.outcome s.ruleIndex rule (x.before s.ruleIndex) =
      (x.resolveDNSRoute server options s.effectiveOptions).map fun route =>
        exchangeResult route.1 (x.answer (x.query s.ruleIndex route.1 route.2)) := by
    simp only [outcome, haction, hconsistent.options]
  simp only [act, haction]
  cases hroute : x.resolveDNSRoute server options s.effectiveOptions with
  | none =>
    apply h.proceed hrule hrace hholds
    · exact ⟨refl, rfl, fun _ _ _ _ => rfl, rfl, rfl, rfl⟩
    · rw [houtcome, hroute, Option.map_none]
    · simp only [accumulate, haction]
      exact hconsistent
  | some route =>
    obtain ⟨transport, resolved⟩ := route
    rw [hroute, Option.map_some] at houtcome
    have hexchange : s.armedRules = [] →
        Sound x (s.suspend (.pending (.exchange s.ruleIndex transport resolved))) := fun hempty =>
      h.suspend ⟨hempty, _, rfl, h.isOutcome hrule hrace hholds hempty houtcome⟩
    cases harmed : s.armedRules.isEmpty with
    | false =>
      simp only [Bool.not_false, if_true]
      split_ifs
      · exact h.launch_terminal hrule hrace hholds houtcome
      · exact h.suspend hopen
    | true =>
      have hempty := isEmpty_iff.mp harmed
      simp only [Bool.not_true, Bool.false_eq_true, if_false]
      cases hterminal : s.terminalFuture with
      | none => exact hexchange hempty
      | some i =>
        split_ifs with hindex
        · obtain ⟨result, hresult, hdecided⟩ := h.terminal i hterminal
          rw [show Walk.state ⟨Phase.matching, s⟩ = s from rfl, hindex] at hdecided
          exact h.suspend ⟨hempty, result, hresult, isOutcome_of_head hopen hempty hdecided⟩
        · exact hexchange hempty

include haccepted

theorem Sound.act_respond (haction : rule.action = .respond) :
    Sound x (x.act s rule) := by
  have hconsistent : Consistent x s (x.before s.ruleIndex) := h.consistent
  obtain ⟨hopen, _, hget, _, hsettled, hresolved⟩ : Open x s s.ruleIndex 0 ∧ Bindable x s := h.phase
  cases hrule.symm.trans hget
  have houtcome : ∀ result, x.outcome s.ruleIndex rule (x.before s.ruleIndex) = some result → s.armedRules = [] →
      Sound x (s.finish result) := fun result hresult hempty =>
    h.finish (h.isOutcome hrule hrace hholds hempty hresult)
  simp only [outcome, haction] at houtcome
  simp only [act, haction]
  split_ifs with harmed htag
  · exact h.suspend hopen
  · -- the response bound by the rule's own tag
    apply houtcome _ _ (by simpa using harmed)
    rw [if_pos htag, respondResult_named hconsistent (hsettled _ (matchResponseTag_mem htag))]
  · have hempty : s.armedRules = [] := by simpa using harmed
    have hrefers := hconsistent.anonymous
    rw [if_neg htag] at houtcome
    cases hfuture : s.anonymousFuture with
    | none =>
      rw [hfuture] at hrefers
      apply houtcome _ _ hempty
      rw [hrefers.eq_none]
      rfl
    | some i =>
      rw [hfuture] at hrefers
      dsimp only
      split_ifs with hwait
      · obtain ⟨f, hf, _⟩ := hrefers.exists_future
        exact h.suspend ⟨hopen, (getElem?_lt hf)⟩
      · apply houtcome _ _ hempty
        rw [respondResult_anonymous hrefers]
        -- without bindings the walk has just looked; with them it is the anonymous one
        cases hbindings : rule.hasBindings with
        | false => simpa [hbindings] using hwait
        | true =>
          have htags := haccepted.tags_of_respond hrule (by rw [haction]; rfl) (not_not.mp htag)
          have hanonymous : rule.anonymous = true := by simpa [DNSRule.hasBindings, htags] using hbindings
          exact hresolved hanonymous i hfuture

omit h hrace hholds in
theorem tag_unused {tag : String} (hne : tag ≠ "")
    (htag : evaluateTag rule.action = some tag) (hconsistent : Consistent x s (x.before s.ruleIndex))
    (hopen : Open x s s.ruleIndex 0) :
    s.namedFutures tag = none ∧ ∀ armed ∈ s.armedRules, tag ∉ armed.rule.tags := by
  constructor
  · cases hfuture : s.namedFutures tag with
    | none => rfl
    | some i =>
      have hrefers := hconsistent.named tag
      rw [hfuture] at hrefers
      obtain ⟨f, _, hquery⟩ := hrefers.exists_future
      obtain ⟨j, hj, other, hother, hevaluate⟩ := exists_evaluate_of_named (by rw [hquery]; simp)
      have := haccepted.evaluate_inj hrule hne hother htag hevaluate
      omega
  · intro armed hmem hbound
    obtain ⟨hfor, hlt⟩ := hopen.armed armed hmem
    obtain ⟨j, hj, other, hother, hevaluate⟩ := haccepted.exists_evaluate hfor.rule hbound
    have := haccepted.evaluate_inj hrule hne hother htag hevaluate
    omega

theorem Sound.act_evaluate {server tag : String}
    (haction : rule.action = .evaluate server tag speculative options) : Sound x (x.act s rule) := by
  obtain ⟨hconsistent, hopen⟩ := h.matching
  have hproceed : ∀ t : WalkState κ, Ahead s t →
      Consistent x t (x.accumulate s.ruleIndex rule (x.before s.ruleIndex)) → Sound x t.next := fun t hahead =>
    h.proceed hrule hrace hholds hahead (by simp only [outcome, haction])
  simp only [accumulate, haction] at hproceed
  simp only [act, haction]
  cases htransport : x.transports server with
  | none =>
    simp only [htransport] at hproceed ⊢
    split_ifs with htag
    · apply hproceed
      · exact ⟨refl, rfl, fun _ _ _ _ => rfl, rfl, rfl, rfl⟩
      · rw [if_pos htag]
        exact { hconsistent with anonymous := .none }
    · apply hproceed
      · exact ⟨refl, rfl, fun _ _ _ _ => rfl, rfl, rfl, rfl⟩
      · rw [if_neg htag]
        exact hconsistent
  | some transport =>
    simp only [htransport, ← hconsistent.options] at hproceed ⊢
    split_ifs with hdrain htag
    · exact h.suspend hopen
    · subst htag
      apply hproceed
      · exact ⟨append _, rfl, fun _ _ _ _ => rfl, rfl, rfl, rfl⟩
      · rw [if_pos rfl, hconsistent.options]
        exact { hconsistent.launch transport _ with anonymous := .some getElem?_concat_length }
    · obtain ⟨hnew, hunbound⟩ := tag_unused hrule haccepted htag (by rw [haction]; rfl) hconsistent hopen
      apply hproceed
      · refine ⟨append _, rfl, ?_, rfl, rfl, rfl⟩
        intro armed hmem other hother
        apply Function.update_of_ne
        rintro rfl
        exact hunbound armed hmem hother
      · rw [if_neg htag, hconsistent.options]
        exact hconsistent.launch_named htag hnew transport _

theorem Sound.act : Sound x (x.act s rule) := by
  obtain ⟨hconsistent, hopen⟩ := h.matching
  cases haction : rule.action with
  | routeOptions options =>
    simp only [Exchange.act, haction]
    apply h.proceed hrule hrace hholds
    · exact ⟨refl, rfl, fun _ _ _ _ => rfl, rfl, rfl, rfl⟩
    · simp only [outcome, haction]
    · simp only [accumulate, haction]
      exact { hconsistent with options := by rw [hconsistent.options] }
  | evaluate server tag speculative options => exact h.act_evaluate hrule hrace hholds haccepted haction
  | respond => exact h.act_respond hrule hrace hholds haccepted haction
  | route server speculative options => exact h.act_route hrule hrace hholds haction
  | reject action =>
    simp only [Exchange.act, haction]
    split_ifs with harmed
    · exact h.suspend hopen
    · cases hresult : rejectResult x.message action with
      | none =>
        apply h.proceed hrule hrace hholds
        · exact ⟨refl, rfl, fun _ _ _ _ => rfl, rfl, rfl, rfl⟩
        · simp only [outcome, haction, hresult]
        · simp only [accumulate, haction]
          exact hconsistent
      | some result =>
        apply h.finish
        apply h.isOutcome hrule hrace hholds (by simpa using harmed)
        simp only [outcome, haction, hresult]
  | predefined response =>
    simp only [Exchange.act, haction]
    split_ifs with harmed
    · exact h.suspend hopen
    · apply h.finish
      apply h.isOutcome hrule hrace hholds (by simpa using harmed)
      simp only [outcome, haction]

end Act

section Sweep

variable {armed : ArmedRule κ} {suspension : Option Suspension} {n index : ℕ}

theorem Open.erase {j : ℕ} (h : Open x s n index) (hj : s.armedRules[j]? = some armed) (hij : index ≤ j)
    (hnone : x.raced armed.ruleIndex = none) : Open x { s with armedRules := s.armedRules.eraseIdx j } n index := by
  constructor
  · exact h.passed
  · intro k hk
    obtain ⟨other, hmem, rfl⟩ | hraced := h.races k hk
    · by_cases hsame : other.ruleIndex = armed.ruleIndex
      · exact .inr (hsame ▸ hnone)
      · obtain ⟨i, hi⟩ := getElem?_of_mem hmem
        refine .inl ⟨other, mem_eraseIdx_iff_getElem?.mpr ⟨i, ?_, hi⟩, rfl⟩
        rintro rfl
        exact hsame (congrArg ArmedRule.ruleIndex (Option.some.inj (hi.symm.trans hj)))
    · exact .inr hraced
  · intro other hmem
    obtain ⟨hfor, hlt⟩ := h.armed other (mem_of_mem_eraseIdx hmem)
    exact ⟨hfor.mono refl fun _ _ => rfl, hlt⟩
  · intro i other hi hnothing
    rw [getElem?_eraseIdx] at hi
    split_ifs at hi with hlt
    · exact h.idle i other hi hnothing
    · exact ⟨by omega, (h.idle (i + 1) other hi hnothing).2⟩

section

variable (h : PhaseHolds x s (.sweeping suspension index)) (hj : s.armedRules[index]? = some armed)
include h hj

theorem PhaseHolds.exists_open : ∃ n index', Open x s n index' ∧ index' ≤ index ∧ n ≤ s.ruleIndex + 1 ∧
      ∀ t : WalkState κ, Open x t n index' → t.ruleIndex = s.ruleIndex → t.futures = s.futures →
        PhaseHolds x t (.sweeping suspension index) := by
  cases suspension with
  | none =>
    refine ⟨s.ruleIndex + 1, index, h.1, le_rfl, le_rfl, ?_⟩
    intro t hopen hsame _
    simp only [PhaseHolds, hsame]
    exact ⟨hopen, h.2⟩
  | some suspension =>
    cases suspension with
    | pending pending =>
      have hempty : s.armedRules = [] := h.1
      simp [hempty] at hj
    | await i =>
      refine ⟨s.ruleIndex, 0, h.1, Nat.zero_le _, Nat.le_succ _, ?_⟩
      intro t hopen hsame hfutures
      simp only [PhaseHolds, Suspended, hsame, hfutures]
      exact ⟨hopen, h.2⟩
    | drain =>
      refine ⟨s.ruleIndex, 0, h, Nat.zero_le _, Nat.le_succ _, ?_⟩
      intro t hopen hsame _
      simp only [PhaseHolds, Suspended, hsame]
      exact hopen

theorem PhaseHolds.sweep_past (hwaiting : armed.futures ≠ []) :
    PhaseHolds x s (.sweeping suspension (index + 1)) := by
  cases suspension with
  | none =>
    refine ⟨{ h.1 with idle := ?_ }, h.2⟩
    intro j other hother hnothing
    obtain ⟨hle, hposition⟩ := h.1.idle j other hother hnothing
    have hne : j ≠ index := by
      rintro rfl
      exact hwaiting (Option.some.inj (hj.symm.trans hother) ▸ hnothing)
    exact ⟨by omega, hposition⟩
  | some suspension => exact h

end

theorem Sound.sweep_end (h : Sound x ⟨.sweeping suspension index, s⟩) (hj : s.armedRules[index]? = none) :
    Sound x (x.sweep s suspension index) := by
  simp only [Exchange.sweep, hj]
  cases suspension with
  | some suspension => exact h.of_phase fresh_nil h.phase
  | none =>
    obtain ⟨hopen, rule, hrule, hrace⟩ : Open x s (s.ruleIndex + 1) index ∧ _ := h.phase
    have hconsistent : Consistent x s (x.before s.ruleIndex) := h.consistent
    have hskip : x.before (s.ruleIndex + 1) = x.before s.ruleIndex := before_succ_of_not hrule (by simp [hrace])
    constructor
    · exact hskip ▸ hconsistent.frame
    · exact h.terminal
    · exact fresh_nil
    · apply hopen.pass
      intro armed hmem hnothing
      obtain ⟨j, hlt⟩ := getElem?_of_mem hmem
      have hle := (hopen.idle j armed hlt hnothing).1
      have := getElem?_eq_none_iff.mp hj
      have := getElem?_lt hlt
      omega

theorem Sound.sweep (haccepted : Accepted x.rules) (h : Sound x ⟨.sweeping suspension index, s⟩) :
    Sound x (x.sweep s suspension index) := by
  cases hj : s.armedRules[index]? with
  | none => exact h.sweep_end hj
  | some armed =>
    have hconsistent : Consistent x s (x.before s.ruleIndex) := h.consistent
    have hfresh : Fresh s (armedTags s) := h.fresh
    have hmem := mem_of_getElem? hj
    have hphase : PhaseHolds x s (.sweeping suspension index) := h.phase
    obtain ⟨n, index', hopen, hindex, hn, hback⟩ := hphase.exists_open hj
    obtain ⟨hfor, hlt⟩ := hopen.armed armed hmem
    have hidle : armed.futures = [] → armed.ruleIndex = s.ruleIndex := fun hnothing =>
      (hopen.idle index armed hj hnothing).2
    simp only [Exchange.sweep, hj]
    cases hall : armed.futures.all s.isResolved with
    | false =>
      have hwaiting : armed.futures ≠ [] := by
        intro hnothing
        simp [hnothing] at hall
      exact ⟨h.consistent, h.terminal, hfresh, hphase.sweep_past hj hwaiting⟩
    | true =>
      have hready : ArmedFor.Ready s armed := by
        constructor
        · exact all_eq_true.mp hall
        · intro tag htag
          exact hfresh tag (mem_flatMap.mpr ⟨armed, hmem, htag⟩)
      have hmatch := hfor.matchWith_eq hready haccepted hconsistent (by omega)
      have hcommits := hfor.commits hready haccepted hconsistent (by omega) hidle
      have hraced := raced_of_rule hfor.rule
      simp only [hfor.race, Bool.true_and] at hraced
      simp only [Bool.not_true, Bool.false_eq_true, if_false, hmatch]
      have hdrop : x.raced armed.ruleIndex = none →
          Sound x ⟨.sweeping suspension index, { s with armedRules := s.armedRules.eraseIdx index }⟩ := by
        intro hnone
        constructor
        · exact hconsistent.frame
        · exact h.terminal
        · intro tag htag
          obtain ⟨other, hother, hbound⟩ := mem_flatMap.mp htag
          exact hfresh tag (mem_flatMap.mpr ⟨other, mem_of_mem_eraseIdx hother, hbound⟩)
        · exact hback _ (hopen.erase hj hindex hnone) rfl rfl
      split_ifs with hholds
      · rw [if_pos hholds] at hraced
        rw [← hraced] at hcommits
        have houtcome : ∀ result, x.raced armed.ruleIndex = some result → x.IsOutcome result := fun result hresult =>
          x.isOutcome_of_raced hopen.passed hlt hresult
        generalize hcommit : x.commit s armed = committed at hcommits
        generalize hraced' : x.raced armed.ruleIndex = result at hcommits
        cases hcommits with
        | nothing => exact hdrop hraced'
        | result result => exact ⟨hconsistent.frame, h.terminal, fresh_nil, houtcome result hraced'⟩
        | @pending pending result ends =>
          cases suspension with
          | none =>
            refine ⟨hconsistent.frame, h.terminal, fresh_nil, rfl, ?_⟩
            exact ⟨result, pendingResult_mono refl ends, houtcome result hraced'⟩
          | some suspension =>
            refine ⟨hconsistent.frame, h.terminal, fresh_nil, ?_⟩
            exact ⟨result, pendingResult_mono refl ends, houtcome result hraced'⟩
      · exact hdrop (by rw [hraced, if_neg hholds])

end Sweep

end Exchange

end Hydracore.Dns
