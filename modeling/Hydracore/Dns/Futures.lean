import Hydracore.Dns.Strict

namespace Hydracore.Dns

open Systems List Option Function WalkState

variable {κ : Type}

inductive Refers (futures : List Future) : Option ℕ → Option Query → Prop
  | none : Refers futures none none
  | some {i : ℕ} {f : Future} (launched : futures[i]? = some f) : Refers futures (some i) (some f.query)

variable {i : ℕ}

namespace Refers

variable {futures : List Future} {query : Option Query}

theorem eq_none (h : Refers futures Option.none query) : query = Option.none := by
  cases h
  rfl

theorem exists_future (h : Refers futures (Option.some i) query) :
    ∃ f, futures[i]? = Option.some f ∧ query = Option.some f.query := by
  cases h with
  | some launched => exact ⟨_, launched, rfl⟩

end Refers

def Grown (futures later : List Future) : Prop :=
  ∀ (i : ℕ) (f : Future), futures[i]? = some f → ∃ g : Future, later[i]? = some g ∧ g.query = f.query ∧ g.tag = f.tag ∧
    (f.resolved = true → g.resolved = true) ∧ (f.settled = true → g.settled = true)

namespace Grown

variable {futures later : List Future}

theorem refl : Grown futures futures := fun _ f hf => ⟨f, hf, rfl, rfl, id, id⟩

theorem append (more : List Future) : Grown futures (futures ++ more) := by
  intro i f hf
  have hlt : i < futures.length := getElem?_lt hf
  exact ⟨f, by rw [getElem?_append_left hlt, hf], rfl, rfl, id, id⟩

theorem map_settle : Grown futures (futures.map Exchange.settle) := by
  intro i f hf
  exact ⟨Exchange.settle f, by rw [getElem?_map, hf, map_some], rfl, rfl, id, fun h => by simp [Exchange.settle, h]⟩

theorem set_resolved {f : Future} (hf : futures[i]? = some f) :
    Grown futures (futures.set i { f with resolved := true }) := by
  intro j g hg
  by_cases hij : i = j
  · subst hij
    cases hf.symm.trans hg
    have hlt := getElem?_lt hf
    exact ⟨{ f with resolved := true }, getElem?_set_self hlt, rfl, rfl, fun _ => rfl, id⟩
  · exact ⟨g, by rw [getElem?_set_ne hij, hg], rfl, rfl, id, id⟩

theorem lt_length (h : Grown futures later) (hi : i < futures.length) : i < later.length := by
  obtain ⟨g, hg, _⟩ := h i futures[i] (getElem?_eq_getElem hi)
  exact getElem?_lt hg

theorem refers (h : Grown futures later) {i : Option ℕ} {query : Option Query} (hrefers : Refers futures i query) :
    Refers later i query := by
  cases hrefers with
  | none => exact .none
  | @some i f launched =>
    obtain ⟨g, hg, hquery, _⟩ := h i f launched
    exact hquery ▸ .some hg

end Grown

namespace WalkState

variable {s t : WalkState κ}

def isSettled (s : WalkState κ) (future : ℕ) : Bool := s.futures[future]?.any Future.settled

theorem isResolved_iff : s.isResolved i = true ↔ ∃ f, s.futures[i]? = some f ∧ f.resolved = true := by
  cases h : s.futures[i]? <;> simp [isResolved, h]

theorem isSettled_iff : s.isSettled i = true ↔ ∃ f, s.futures[i]? = some f ∧ f.settled = true := by
  cases h : s.futures[i]? <;> simp [isSettled, h]

theorem isResolved_of_grown (h : Grown s.futures t.futures) (hi : s.isResolved i = true) : t.isResolved i = true := by
  obtain ⟨f, hf, hresolved⟩ := isResolved_iff.mp hi
  obtain ⟨g, hg, _, _, hlater, _⟩ := h i f hf
  exact isResolved_iff.mpr ⟨g, hg, hlater hresolved⟩

theorem isSettled_of_grown (h : Grown s.futures t.futures) (hi : s.isSettled i = true) : t.isSettled i = true := by
  obtain ⟨f, hf, hsettled⟩ := isSettled_iff.mp hi
  obtain ⟨g, hg, _, _, _, hlater⟩ := h i f hf
  exact isSettled_iff.mpr ⟨g, hg, hlater hsettled⟩

end WalkState

namespace Exchange

variable {x : Exchange κ} {s : WalkState κ} {bound : Bound}

def settledView (x : Exchange κ) (s : WalkState κ) (future : ℕ) : Option Message :=
  s.futures[future]?.bind fun f => if f.settled then (x.answer f.query).toOption else none

/-- The futures of the state are the queries of `bound`, each tag stands for one future, and what is published
under it is the answer to its query. -/
structure Consistent (x : Exchange κ) (s : WalkState κ) (bound : Bound) : Prop where
  options : s.effectiveOptions = bound.options
  anonymous : Refers s.futures s.anonymousFuture bound.anonymous
  named : ∀ tag, Refers s.futures (s.namedFutures tag) (bound.named tag)
  tagged : ∀ (i : ℕ) (f : Future), s.futures[i]? = some f → f.tag ≠ "" → s.namedFutures f.tag = some i
  owner : ∀ tag i, s.namedFutures tag = some i → tag ≠ "" ∧ ∃ f, s.futures[i]? = some f ∧ f.tag = tag
  responses : ∀ tag, s.namedResponses tag = (s.namedFutures tag).bind (x.settledView s)
  transports : ∀ tag i, s.namedFutures tag = some i → s.isSettled i = true →
    s.namedTransports tag = s.futures[i]?.map fun f => f.query.transport

variable {tag : String}

namespace Consistent

theorem frame (h : Consistent x s bound) {ruleIndex terminalIndex : ℕ} {armedRules : List (ArmedRule κ)}
    {terminalFuture : Option ℕ} {wake : Bool} {signals : ℕ} : Consistent x { s with
      ruleIndex := ruleIndex, armedRules := armedRules, terminalFuture := terminalFuture
      terminalIndex := terminalIndex, wake := wake, signals := signals } bound :=
  ⟨h.options, h.anonymous, h.named, h.tagged, h.owner, h.responses, h.transports⟩

theorem viewAt (h : s.isResolved i = true) {f : Future} (hf : s.futures[i]? = some f) :
    x.viewAt s i = (x.answer f.query).toOption := by
  have hresolved : f.resolved = true := by simpa [isResolved, hf] using h
  simp [Exchange.viewAt, hf, view, hresolved]

theorem bind_viewAt {i : Option ℕ} {query : Option Query} (h : Refers s.futures i query)
    (hresolved : ∀ j, i = some j → s.isResolved j = true) : i.bind (x.viewAt s) = x.seen query := by
  cases h with
  | none => rfl
  | @some i f launched => simp [seen, viewAt (hresolved i rfl) launched]

theorem namedResponses (h : Consistent x s bound)
    (hsettled : ∀ i, s.namedFutures tag = some i → s.isSettled i = true) :
    s.namedResponses tag = x.seen (bound.named tag) := by
  have hrefers := h.named tag
  rw [h.responses tag]
  cases hfuture : s.namedFutures tag with
  | none =>
    rw [hfuture] at hrefers
    rw [hrefers.eq_none, bind_none, seen, bind_none]
  | some i =>
    rw [hfuture] at hrefers
    obtain ⟨f, launched, hquery⟩ := hrefers.exists_future
    have hf : f.settled = true := by simpa [isSettled, launched] using hsettled i hfuture
    simp [settledView, seen, launched, hf, hquery]

end Consistent

variable {t : WalkState κ}

theorem complete_eq (h : complete s i = some t) : ∃ f, s.futures[i]? = some f ∧ f.resolved = false ∧
    t = { s with futures := s.futures.set i { f with resolved := true }, signals := s.signals + 1 } := by
  simp only [complete] at h
  cases hf : s.futures[i]? with
  | none => simp [hf] at h
  | some f =>
    simp only [hf] at h
    split_ifs at h with hresolved
    exact ⟨f, rfl, by simpa using hresolved, (some.inj h).symm⟩

theorem signal_eq (h : signal s = some t) :
    0 < s.signals ∧ t = { s with signals := s.signals - 1, wake := true } := by
  simp only [signal] at h
  split_ifs at h with hnone
  exact ⟨Nat.pos_of_ne_zero hnone, (some.inj h).symm⟩

theorem settleDNSFutures_grown : Grown s.futures (x.settleDNSFutures s).futures := Grown.map_settle

theorem getElem?_settleDNSFutures : (x.settleDNSFutures s).futures[i]? = s.futures[i]?.map settle := getElem?_map

theorem isSettled_settleDNSFutures : (x.settleDNSFutures s).isSettled i = (s.isSettled i || s.isResolved i) := by
  rw [isSettled, isSettled, isResolved, getElem?_settleDNSFutures]
  cases s.futures[i]? <;> rfl

theorem isResolved_settleDNSFutures : (x.settleDNSFutures s).isResolved i = s.isResolved i := by
  rw [isResolved, isResolved, getElem?_settleDNSFutures]
  cases s.futures[i]? <;> rfl

namespace Consistent

section

variable (h : Consistent x s bound)
include h

theorem eq_of_published {f g : Future} (hi : s.futures[i]? = some f)
    (hg : g ∈ s.futures) (hpublished : published g = true) (htag : g.tag = f.tag) : g = f := by
  have hne : g.tag ≠ "" := by
    simp only [published, Bool.and_eq_true, decide_eq_true_eq] at hpublished
    exact hpublished.2
  obtain ⟨j, hj⟩ := getElem?_of_mem hg
  have hij := h.tagged i f hi (htag ▸ hne)
  rw [← htag, h.tagged j g hj hne] at hij
  cases hij
  exact some.inj (hj.symm.trans hi)

theorem updateAll_tag {ν : Type} (value : Future → ν) (named : String → ν) {f : Future}
    (hi : s.futures[i]? = some f) (htag : f.tag = tag) :
    updateAll published Future.tag value s.futures named tag = if published f then value f else named tag := by
  split_ifs with hf
  · apply updateAll_of_mem
    · exact ⟨f, mem_of_getElem? hi, hf, htag⟩
    · intro g hg hpublished hsame
      rw [h.eq_of_published hi hg hpublished (hsame.trans htag.symm)]
  · apply updateAll_of_not
    intro g hg hpublished hsame
    rw [h.eq_of_published hi hg hpublished (hsame.trans htag.symm)] at hpublished
    exact hf hpublished

theorem updateAll_none {ν : Type} (value : Future → ν) (named : String → ν)
    (hnone : s.namedFutures tag = none) : updateAll published Future.tag value s.futures named tag = named tag := by
  apply updateAll_of_not
  intro g hg hpublished hsame
  simp only [published, Bool.and_eq_true, decide_eq_true_eq] at hpublished
  obtain ⟨j, hj⟩ := getElem?_of_mem hg
  rw [← hsame, h.tagged j g hj hpublished.2] at hnone
  cases hnone

theorem settleDNSFutures_responses (tag : String) : (x.settleDNSFutures s).namedResponses tag =
      (s.namedFutures tag).bind (x.settledView (x.settleDNSFutures s)) := by
  cases hfuture : s.namedFutures tag with
  | none =>
    have hbefore := h.responses tag
    rw [hfuture] at hbefore
    exact (h.updateAll_none x.view s.namedResponses hfuture).trans hbefore
  | some i =>
    obtain ⟨hne, f, hf, htag⟩ := h.owner tag i hfuture
    have hbefore := h.responses tag
    rw [hfuture, bind_some, settledView, hf, bind_some] at hbefore
    rw [bind_some, settledView, getElem?_settleDNSFutures, hf, map_some, bind_some]
    apply (h.updateAll_tag x.view s.namedResponses hf htag).trans
    rw [hbefore]
    -- settled before, published now, or still open
    cases hsettled : f.settled <;> cases hresolved : f.resolved <;>
      simp [published, view, settle, hsettled, hresolved, htag, hne]

theorem settleDNSFutures_transports
    (hi : s.namedFutures tag = some i) (hsettled : (x.settleDNSFutures s).isSettled i = true) :
    (x.settleDNSFutures s).namedTransports tag =
      (x.settleDNSFutures s).futures[i]?.map fun f => f.query.transport := by
  obtain ⟨hne, f, hf, htag⟩ := h.owner tag i hi
  apply (h.updateAll_tag (fun future => some future.query.transport) s.namedTransports hf htag).trans
  rw [getElem?_settleDNSFutures, hf, map_some, map_some]
  rw [isSettled_settleDNSFutures] at hsettled
  simp only [isSettled, isResolved, hf, any_some] at hsettled
  cases hbefore : f.settled with
  | true =>
    have hpublished := h.transports tag i hi (by simp [isSettled, hf, hbefore])
    simp [published, hbefore, hpublished, hf, settle]
  | false =>
    have hresolved : f.resolved = true := by simpa [hbefore] using hsettled
    simp [published, hbefore, hresolved, htag, hne, settle]

theorem settleDNSFutures : Consistent x (x.settleDNSFutures s) bound := by
  constructor
  · exact h.options
  · exact settleDNSFutures_grown.refers h.anonymous
  · exact fun tag => settleDNSFutures_grown.refers (h.named tag)
  · intro i f hf
    rw [getElem?_settleDNSFutures, map_eq_some_iff] at hf
    obtain ⟨g, hg, rfl⟩ := hf
    exact h.tagged i g hg
  · intro tag i hi
    obtain ⟨hne, f, hf, htag⟩ := h.owner tag i hi
    exact ⟨hne, settle f, by rw [getElem?_settleDNSFutures, hf, map_some], htag⟩
  · exact h.settleDNSFutures_responses
  · exact fun tag i hi => h.settleDNSFutures_transports hi

theorem of_futures {futures : List Future} {signals : ℕ} (hgrown : Grown s.futures futures)
    (hback : ∀ (i : ℕ) (g : Future), futures[i]? = some g →
      (∃ f : Future, s.futures[i]? = some f ∧ g.tag = f.tag ∧ g.settled = f.settled) ∨
        (s.futures[i]? = none ∧ g.tag = "" ∧ g.settled = false)) :
    Consistent x { s with futures := futures, signals := signals } bound := by
  have hsettled : ∀ i, isSettled { s with futures := futures, signals := signals } i = true →
      s.isSettled i = true := by
    intro i hi
    obtain ⟨g, hg, hnow⟩ := isSettled_iff.mp hi
    obtain ⟨f, hf, _, hsame⟩ | ⟨_, _, hnot⟩ := hback i g hg
    · exact isSettled_iff.mpr ⟨f, hf, hsame ▸ hnow⟩
    · simp [hnot] at hnow
  constructor
  · exact h.options
  · exact hgrown.refers h.anonymous
  · exact fun tag => hgrown.refers (h.named tag)
  · intro i g hg hne
    obtain ⟨f, hf, htag, _⟩ | ⟨_, htag, _⟩ := hback i g hg
    · rw [htag]
      exact h.tagged i f hf (htag ▸ hne)
    · exact absurd htag hne
  · intro tag i hi
    obtain ⟨hne, f, hf, htag⟩ := h.owner tag i hi
    obtain ⟨g, hg, _, hsame, _⟩ := hgrown i f hf
    exact ⟨hne, g, hg, hsame.trans htag⟩
  · intro tag
    rw [h.responses tag]
    cases hfuture : s.namedFutures tag with
    | none => rfl
    | some i =>
      obtain ⟨_, f, hf, _⟩ := h.owner tag i hfuture
      obtain ⟨g, hg, hquery, _⟩ := hgrown i f hf
      obtain ⟨f', hf', _, hsame⟩ | ⟨hnone, _⟩ := hback i g hg
      · cases hf.symm.trans hf'
        simp [settledView, hf, hg, hquery, hsame]
      · simp [hf] at hnone
  · intro tag i hi hnow
    obtain ⟨_, f, hf, _⟩ := h.owner tag i hi
    obtain ⟨g, hg, hquery, _⟩ := hgrown i f hf
    have hbefore := h.transports tag i hi (hsettled i hnow)
    simpa [hf, hg, hquery] using hbefore

theorem complete (hstep : complete s i = some t) : Consistent x t bound := by
  obtain ⟨f, hf, _, rfl⟩ := complete_eq hstep
  apply h.of_futures (Grown.set_resolved hf)
  intro j g hg
  by_cases hij : i = j
  · subst hij
    rw [getElem?_set_self (getElem?_lt hf)] at hg
    cases hg
    exact .inl ⟨f, hf, rfl, rfl⟩
  · rw [getElem?_set_ne hij] at hg
    exact .inl ⟨g, hg, rfl, rfl⟩

end

theorem getElem?_launch {futures : List Future} {f g : Future} (h : (futures ++ [f])[i]? = some g) :
    futures[i]? = some g ∨ (i = futures.length ∧ futures[i]? = none ∧ g = f) := by
  obtain hlt | rfl | hlt := lt_trichotomy i futures.length
  · rw [getElem?_append_left hlt] at h
    exact .inl h
  · rw [getElem?_concat_length] at h
    exact .inr ⟨rfl, getElem?_eq_none le_rfl, (some.inj h).symm⟩
  · rw [getElem?_eq_none (by simp; omega)] at h
    cases h

theorem launch (h : Consistent x s bound) (transport : Transport) (options : DNSQueryOptions) :
    Consistent x (x.launchDNSEvaluate s "" transport options) bound := by
  apply h.of_futures (Grown.append _)
  intro i g hg
  obtain hbefore | ⟨rfl, hnone, rfl⟩ := getElem?_launch hg
  · exact .inl ⟨g, hbefore, rfl, rfl⟩
  · exact .inr ⟨hnone, rfl, rfl⟩

theorem launch_named (h : Consistent x s bound) (hne : tag ≠ "") (hnew : s.namedFutures tag = none)
    (transport : Transport) (options : DNSQueryOptions) :
    Consistent x { x.launchDNSEvaluate s tag transport options with
        namedFutures := update s.namedFutures tag (some s.futures.length) }
      { bound with named := update bound.named tag (some (x.query s.ruleIndex transport options)) } := by
  have hgrown : Grown s.futures (x.launchDNSEvaluate s tag transport options).futures := Grown.append _
  have hlaunched : (x.launchDNSEvaluate s tag transport options).futures[s.futures.length]? =
      some ⟨tag, x.query s.ruleIndex transport options, false, false⟩ := getElem?_concat_length
  have hold : ∀ (i : ℕ) f, s.futures[i]? = some f → (x.launchDNSEvaluate s tag transport options).futures[i]? = some f := by
    intro i f hf
    exact (getElem?_append_left (getElem?_lt hf)).trans hf
  constructor
  · exact h.options
  · exact hgrown.refers h.anonymous
  · intro other
    by_cases heq : other = tag
    · subst heq
      simpa only [update_self] using Refers.some hlaunched
    · simpa only [update_of_ne heq] using hgrown.refers (h.named other)
  · intro i g hg hother
    obtain hbefore | ⟨rfl, _, rfl⟩ := getElem?_launch hg
    · have hstands := h.tagged i g hbefore hother
      have heq : g.tag ≠ tag := by
        rintro rfl
        simp [hnew] at hstands
      simpa only [update_of_ne heq] using hstands
    · exact update_self ..
  · intro other i hi
    by_cases heq : other = tag
    · subst heq
      obtain rfl : s.futures.length = i := by simpa using hi
      exact ⟨hne, _, hlaunched, rfl⟩
    · obtain ⟨hother, f, hf, htag⟩ := h.owner other i (by simpa only [update_of_ne heq] using hi)
      exact ⟨hother, f, hold i f hf, htag⟩
  · intro other
    by_cases heq : other = tag
    · subst heq
      have hbefore := h.responses other
      rw [hnew] at hbefore
      show s.namedResponses other = _
      simpa [settledView, hlaunched] using hbefore
    · have hbefore := h.responses other
      simp only [update_of_ne heq]
      apply hbefore.trans
      cases hfuture : s.namedFutures other with
      | none => rfl
      | some i =>
        obtain ⟨_, f, hf, _⟩ := h.owner other i hfuture
        simp [settledView, hf, hold i f hf]
  · intro other i hi hsettled
    by_cases heq : other = tag
    · subst heq
      obtain rfl : s.futures.length = i := by simpa using hi
      simp [isSettled, hlaunched] at hsettled
    · have hother : s.namedFutures other = some i := by simpa only [update_of_ne heq] using hi
      obtain ⟨_, f, hf, _⟩ := h.owner other i hother
      have hbefore := h.transports other i hother (by simpa [isSettled, hf, hold i f hf] using hsettled)
      show s.namedTransports other = _
      simpa [hf, hold i f hf] using hbefore

end Consistent

end Exchange

end Hydracore.Dns
