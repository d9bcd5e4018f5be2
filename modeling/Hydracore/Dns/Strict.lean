import Hydracore.Dns.Walk
import Mathlib.Data.Nat.Find

namespace Hydracore.Dns

variable {κ : Type}

structure Bound where
  options : DNSQueryOptions
  anonymous : Option Query
  named : String → Option Query

namespace Exchange

variable (x : Exchange κ)

def seen (query : Option Query) : Option Message := query.bind fun query => (x.answer query).toOption

def holds (rule : DNSRule κ) (bound : Bound) : Bool :=
  rule.matchWith x.metadata (x.seen bound.anonymous) fun tag => x.seen (bound.named tag)

def accumulate (i : ℕ) (rule : DNSRule κ) (bound : Bound) : Bound :=
  match rule.action with
  | .routeOptions options => { bound with options := applyDNSRouteOptions bound.options options }
  | .evaluate server tag _ options =>
    match x.transports server with
    | none => if tag = "" then { bound with anonymous := none } else bound
    | some transport =>
      let query := x.query i transport (applyDNSRouteOptions bound.options options)
      if tag = "" then { bound with anonymous := some query }
      else { bound with named := Function.update bound.named tag (some query) }
  | _ => bound

def before : ℕ → Bound
  | 0 => ⟨x.options, none, fun _ => none⟩
  | i + 1 =>
    match x.rules[i]? with
    | none => before i
    | some rule => if !rule.race && x.holds rule (before i) then x.accumulate i rule (before i) else before i

/-- The outcome of the final action of the rule at `i`; a route to a missing or skipped server has none. -/
def outcome (i : ℕ) (rule : DNSRule κ) (bound : Bound) : Option ExchangeResult :=
  match rule.action with
  | .respond =>
    let query := if rule.matchResponseTag ≠ "" then bound.named rule.matchResponseTag else bound.anonymous
    some (respondResult (x.seen query) (query.map Query.transport))
  | .route server _ options =>
    (x.resolveDNSRoute server options bound.options).map fun (transport, options) =>
      exchangeResult transport (x.answer (x.query i transport options))
  | .reject action => rejectResult x.message action
  | .predefined response => some (predefinedResult (response x.message))
  | .routeOptions _ | .evaluate _ _ _ _ => none

/-- The outcome of the rule at `i` if it is no race rule and matches; after the last rule, the default
server's. -/
def decided (i : ℕ) : Option ExchangeResult :=
  match x.rules[i]? with
  | none => some (exchangeResult x.defaultTransport (x.answer (x.query i x.defaultTransport (x.before i).options)))
  | some rule => if !rule.race && x.holds rule (x.before i) then x.outcome i rule (x.before i) else none

/-- The outcome of the rule at `i` if it is a race rule and matches the responses bound to it. -/
def raced (i : ℕ) : Option ExchangeResult :=
  match x.rules[i]? with
  | none => none
  | some rule => if rule.race && x.holds rule (x.before i) then x.outcome i rule (x.before i) else none

def First (j : ℕ) (result : ExchangeResult) : Prop := x.decided j = some result ∧ ∀ i < j, x.decided i = none

def IsOutcome (result : ExchangeResult) : Prop :=
  ∃ j final, x.First j final ∧
    ((∃ k < j, x.raced k = some result) ∨ ((∀ k < j, x.raced k = none) ∧ result = final))

section Before

variable {x} {i : ℕ} {rule : DNSRule κ} (hrule : x.rules[i]? = some rule)

include hrule

theorem before_succ (h : (!rule.race && x.holds rule (x.before i)) = true) :
    x.before (i + 1) = x.accumulate i rule (x.before i) := by
  simp only [before, hrule, h, if_true]

theorem before_succ_of_not (h : (!rule.race && x.holds rule (x.before i)) = false) :
    x.before (i + 1) = x.before i := by
  simp only [before, hrule, h, Bool.false_eq_true, if_false]

theorem decided_of_rule :
    x.decided i = if !rule.race && x.holds rule (x.before i) then x.outcome i rule (x.before i) else none := by
  simp only [decided, hrule]

theorem raced_of_rule :
    x.raced i = if rule.race && x.holds rule (x.before i) then x.outcome i rule (x.before i) else none := by
  simp only [raced, hrule]

end Before

theorem decided_length : (x.decided x.rules.length).isSome := by
  simp [decided]

theorem exists_first {n : ℕ} (h : ∀ i < n, x.decided i = none) : ∃ j final, n ≤ j ∧ x.First j final := by
  have hex : ∃ j, (x.decided j).isSome := ⟨x.rules.length, x.decided_length⟩
  obtain ⟨final, hfinal⟩ := Option.isSome_iff_exists.mp (Nat.find_spec hex)
  refine ⟨Nat.find hex, final, ?_, hfinal, ?_⟩
  · by_contra hlt
    simp [h _ (not_le.mp hlt)] at hfinal
  · intro i hi
    simpa using Nat.find_min hex hi

theorem isOutcome_of_raced {n k : ℕ} {result : ExchangeResult} (h : ∀ i < n, x.decided i = none) (hk : k < n)
    (hraced : x.raced k = some result) : x.IsOutcome result := by
  obtain ⟨j, final, hj, hfirst⟩ := x.exists_first h
  exact ⟨j, final, hfirst, .inl ⟨k, by omega, hraced⟩⟩

theorem isOutcome_of_decided {n : ℕ} {result : ExchangeResult} (h : ∀ i < n, x.decided i = none)
    (hraces : ∀ k < n, x.raced k = none) (hdecided : x.decided n = some result) : x.IsOutcome result :=
  ⟨n, result, ⟨hdecided, h⟩, .inr ⟨hraces, rfl⟩⟩

end Exchange

end Hydracore.Dns
