import Hydracore.Dns.Bindings
import Hydracore.Dns.Futures

namespace Hydracore.Dns

open DNSRule

variable {κ : Type}

namespace Exchange

variable {x : Exchange κ} {s : WalkState κ}

variable {rule : DNSRule κ} {tag : String}

theorem before_succ_named {i : ℕ} (h : ∀ rule, x.rules[i]? = some rule → evaluateTag rule.action ≠ some tag) :
    (x.before (i + 1)).named tag = (x.before i).named tag := by
  rw [before]
  cases hrule : x.rules[i]? with
  | none => rfl
  | some rule =>
    dsimp only
    split_ifs
    · have h := h rule hrule
      cases haction : rule.action with
      | evaluate server own speculative options =>
        have hne : tag ≠ own := by
          rintro rfl
          simp [haction, evaluateTag] at h
        simp only [accumulate, haction]
        cases x.transports server <;> dsimp only <;> split_ifs <;> simp [Function.update_of_ne hne]
      | routeOptions | respond | route | reject | predefined => simp only [accumulate, haction]
    · rfl

theorem exists_evaluate_of_named {n : ℕ} (h : (x.before n).named tag ≠ none) :
    ∃ j < n, ∃ rule, x.rules[j]? = some rule ∧ evaluateTag rule.action = some tag := by
  induction n with
  | zero => exact absurd rfl h
  | succ n ih =>
    by_cases hrule : ∃ rule, x.rules[n]? = some rule ∧ evaluateTag rule.action = some tag
    · exact ⟨n, by omega, hrule⟩
    · have hsame : (x.before (n + 1)).named tag = (x.before n).named tag :=
        before_succ_named fun rule hr ht => hrule ⟨rule, hr, ht⟩
      obtain ⟨j, hj, hex⟩ := ih (hsame ▸ h)
      exact ⟨j, by omega, hex⟩

theorem named_stable (haccepted : Accepted x.rules) {k : ℕ} (hrule : x.rules[k]? = some rule)
    (htag : tag ∈ rule.tags) {n : ℕ} (hkn : k ≤ n) : (x.before n).named tag = (x.before k).named tag := by
  obtain ⟨j, hj, other, hother, hevaluate⟩ := haccepted.exists_evaluate hrule htag
  induction n, hkn using Nat.le_induction with
  | base => rfl
  | succ n hkn ih =>
    rw [← ih]
    apply before_succ_named
    intro later hlater hagain
    have := haccepted.evaluate_inj hother (matchResponseTags_ne_empty htag) hlater hevaluate hagain
    omega

def SettledFor (s : WalkState κ) (rule : DNSRule κ) : Prop :=
  ∀ tag ∈ rule.tags, ∀ i, s.namedFutures tag = some i → s.isSettled i = true

theorem matchWith_eq_holds (haccepted : Accepted x.rules) {n : ℕ} (h : Consistent x s (x.before n)) {k : ℕ}
    (hrule : x.rules[k]? = some rule) (hkn : k ≤ n) {response : Option Message}
    (hresponse : rule.anonymous = true → response = x.seen (x.before k).anonymous) (hsettled : SettledFor s rule) :
    rule.matchWith x.metadata response s.namedResponses = x.holds rule (x.before k) := by
  apply haccepted.matchWith_congr hrule hresponse
  intro tag htag
  rw [h.namedResponses (hsettled tag htag), named_stable haccepted hrule htag hkn]

structure ArmedFor (x : Exchange κ) (s : WalkState κ) (armed : ArmedRule κ) : Prop where
  rule : x.rules[armed.ruleIndex]? = some armed.rule
  race : armed.rule.race = true
  options : armed.options = (x.before armed.ruleIndex).options
  binds : armed.bindsAnonymous = armed.rule.anonymous
  anonymous : Refers s.futures armed.anonymousFuture
    (if armed.rule.anonymous then (x.before armed.ruleIndex).anonymous else none)
  waitsAnonymous : ∀ i, armed.anonymousFuture = some i → i ∈ armed.futures ∨ s.isResolved i = true
  waitsNamed : ∀ tag ∈ armed.rule.tags, ∀ i, s.namedFutures tag = some i → i ∈ armed.futures ∨ s.isSettled i = true
  bound : ∀ i ∈ armed.futures, armed.anonymousFuture = some i ∨ ∃ tag ∈ armed.rule.tags, s.namedFutures tag = some i

def pendingResult (x : Exchange κ) (s : WalkState κ) : PendingExchange → Option ExchangeResult
  | .exchange rule transport options => some (exchangeResult transport (x.answer (x.query rule transport options)))
  | .future i => s.futures[i]?.map fun f => exchangeResult f.query.transport (x.answer f.query)

inductive Commits (x : Exchange κ) (s : WalkState κ) :
    Option (ExchangeResult ⊕ PendingExchange) → Option ExchangeResult → Prop
  | nothing : Commits x s none none
  | result (result : ExchangeResult) : Commits x s (some (.inl result)) (some result)
  | pending {pending : PendingExchange} {result : ExchangeResult} (ends : x.pendingResult s pending = some result) :
      Commits x s (some (.inr pending)) (some result)

theorem respondResult_named {bound : Bound} (h : Consistent x s bound)
    (hsettled : ∀ i, s.namedFutures tag = some i → s.isSettled i = true) :
    respondResult (s.namedResponses tag) (s.namedTransports tag) =
      respondResult (x.seen (bound.named tag)) ((bound.named tag).map Query.transport) := by
  have hrefers := h.named tag
  rw [h.namedResponses hsettled]
  cases hfuture : s.namedFutures tag with
  | none =>
    rw [hfuture] at hrefers
    rw [hrefers.eq_none]
    rfl
  | some i =>
    rw [hfuture] at hrefers
    obtain ⟨f, hf, hquery⟩ := hrefers.exists_future
    rw [h.transports tag i hfuture (hsettled i hfuture), hf, hquery]
    rfl

theorem respondResult_anonymous {i : ℕ} {query : Option Query} (h : Refers s.futures (some i) query)
    (hresolved : s.isResolved i = true) :
    respondResult (x.viewAt s i) (s.futures[i]?.map fun f => f.query.transport) =
      respondResult (x.seen query) (query.map Query.transport) := by
  obtain ⟨f, hf, rfl⟩ := h.exists_future
  rw [Consistent.viewAt hresolved hf, hf]
  rfl

theorem matchResponseTag_mem (h : rule.matchResponseTag ≠ "") : rule.matchResponseTag ∈ rule.tags := by
  cases hrule : rule.rule with
  | default own ruleSetItem matchResponse =>
    cases matchResponse with
    | none => simp [matchResponseTag, hrule] at h
    | some tag =>
      simp only [matchResponseTag, hrule, Option.getD_some] at h ⊢
      simp [tags, hrule, matchResponseTags, h]
  | logical => simp [matchResponseTag, hrule] at h

namespace ArmedFor

variable {armed : ArmedRule κ}

theorem mono {t : WalkState κ} (h : ArmedFor x s armed) (hgrown : Grown s.futures t.futures)
    (hnamed : ∀ tag ∈ armed.rule.tags, t.namedFutures tag = s.namedFutures tag) : ArmedFor x t armed where
  rule := h.rule
  race := h.race
  options := h.options
  binds := h.binds
  anonymous := hgrown.refers h.anonymous
  waitsAnonymous := fun i hi => (h.waitsAnonymous i hi).imp_right (WalkState.isResolved_of_grown hgrown)
  waitsNamed := fun tag htag i hi =>
    (h.waitsNamed tag htag i (hnamed tag htag ▸ hi)).imp_right (WalkState.isSettled_of_grown hgrown)
  bound := fun i hi => (h.bound i hi).imp_right fun ⟨tag, htag, hfuture⟩ => ⟨tag, htag, hnamed tag htag ▸ hfuture⟩

structure Ready (s : WalkState κ) (armed : ArmedRule κ) : Prop where
  resolved : ∀ i ∈ armed.futures, s.isResolved i = true
  published : ∀ tag ∈ armed.rule.tags, ∀ i, s.namedFutures tag = some i → s.isResolved i = true →
    s.isSettled i = true

variable (h : ArmedFor x s armed) (hready : Ready s armed)

include h hready

theorem anonymous_resolved {i : ℕ} (hi : armed.anonymousFuture = some i) : s.isResolved i = true :=
  (h.waitsAnonymous i hi).elim (hready.resolved i) id

theorem settledFor : SettledFor s armed.rule := by
  intro tag htag i hi
  obtain hpending | hsettled := h.waitsNamed tag htag i hi
  · exact hready.published tag htag i hi (hready.resolved i hpending)
  · exact hsettled

variable (haccepted : Accepted x.rules) {n : ℕ} (hconsistent : Consistent x s (x.before n))
  (hn : armed.ruleIndex ≤ n)

include haccepted hconsistent hn

theorem matchWith_eq : armed.rule.matchWith x.metadata (x.armedResponse s armed) s.namedResponses =
    x.holds armed.rule (x.before armed.ruleIndex) := by
  apply matchWith_eq_holds haccepted hconsistent h.rule hn
  · intro hanonymous
    rw [armedResponse, h.binds, if_pos hanonymous]
    have hrefers := h.anonymous
    rw [if_pos hanonymous] at hrefers
    exact Consistent.bind_viewAt hrefers fun i hi => h.anonymous_resolved hready hi
  · exact h.settledFor hready

theorem commit_respond (hrespond : armed.rule.action = .respond) (hidle : armed.futures = [] → armed.ruleIndex = n) :
    ∃ result, x.commit s armed = some (.inl result) ∧
      x.outcome armed.ruleIndex armed.rule (x.before armed.ruleIndex) = some result := by
  have hisRespond : armed.rule.action.isRespond = true := by rw [hrespond]; rfl
  simp only [commit, outcome, hrespond]
  by_cases htag : armed.rule.matchResponseTag = ""
  · -- without a tag the rule binds the anonymous response only
    have htags := haccepted.tags_of_respond h.rule hisRespond htag
    have hanonymous : armed.rule.anonymous = true := by
      have hbindings := (Accepted.newDNSRule_ok (haccepted.built _ (List.mem_of_getElem? h.rule))).2 h.race
      simpa [hasBindings, htags] using hbindings.2
    have hrefers := h.anonymous
    rw [if_pos hanonymous] at hrefers
    simp only [htag, ne_eq, not_true_eq_false, if_false]
    cases hfuture : armed.anonymousFuture with
    | some i =>
      rw [hfuture] at hrefers
      exact ⟨_, rfl, by rw [respondResult_anonymous hrefers (h.anonymous_resolved hready hfuture)]⟩
    | none =>
      have hnothing : armed.futures = [] := by
        apply List.eq_nil_iff_forall_not_mem.mpr
        intro i hi
        have := h.bound i hi
        simp [hfuture, htags] at this
      rw [hfuture] at hrefers
      have hnone := hrefers.eq_none
      have hcurrent := hconsistent.anonymous
      rw [← hidle hnothing, hnone] at hcurrent
      cases hanon : s.anonymousFuture with
      | none => exact ⟨_, rfl, by rw [hnone]; rfl⟩
      | some i =>
        rw [hanon] at hcurrent
        cases hcurrent
  · simp only [htag, ne_eq, not_false_eq_true, if_true]
    have hmem := matchResponseTag_mem htag
    rw [respondResult_named hconsistent (h.settledFor hready _ hmem), named_stable haccepted h.rule hmem hn]
    exact ⟨_, rfl, rfl⟩

theorem commits (hidle : armed.futures = [] → armed.ruleIndex = n) :
    Commits x s (x.commit s armed) (x.outcome armed.ruleIndex armed.rule (x.before armed.ruleIndex)) := by
  cases haction : armed.rule.action with
  | respond =>
    obtain ⟨result, hcommit, houtcome⟩ := h.commit_respond hready haccepted hconsistent hn haction hidle
    rw [hcommit, houtcome]
    exact .result result
  | route server speculative options =>
    simp only [commit, outcome, haction, h.options]
    cases x.resolveDNSRoute server options (x.before armed.ruleIndex).options with
    | none => exact .nothing
    | some route => exact .pending rfl
  | reject action =>
    simp only [commit, outcome, haction]
    cases rejectResult x.message action with
    | none => exact .nothing
    | some result => exact .result result
  | predefined response =>
    simp only [commit, outcome, haction]
    exact .result _
  | routeOptions | evaluate =>
    simp only [commit, outcome, haction]
    exact .nothing

end ArmedFor

end Exchange

end Hydracore.Dns
