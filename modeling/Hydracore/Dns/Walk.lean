import Hydracore.Dns.Rule
import Hydracore.Systems.Tasks
import Hydracore.Systems.Updates

/-!
`exchangeWithRules`: the walk over the rules, the queries it launches and the race rules it arms.

A query completes between any two steps of the walk: its callback closes the channel of the future and then
sends the wake-up. A step reads each query at most once in a way that matters: a completion in the middle of a
step is one before it or one after it.
-/

namespace Hydracore.Dns

open Rules Systems

/-- `rule` is the position of the rule that asks, the number of rules for the default server. -/
structure Query where
  rule : ℕ
  transport : Transport
  options : DNSQueryOptions

inductive ExchangeError where
  | new (message : String)
  | drop
  | exchange (cause : String)

abbrev Outcome := Except ExchangeError Message

structure ExchangeResult where
  response : Option Message
  transport : Option Transport
  rejectAction : Option RuleActionReject
  err : Option ExchangeError

def dnsRespondMissingResponseMessage : String :=
  "respond action requires an evaluated response from a preceding evaluate action"

def respondResult (response : Option Message) (transport : Option Transport) : ExchangeResult :=
  match response with
  | none => ⟨none, none, none, some (.new dnsRespondMissingResponseMessage)⟩
  | some response => ⟨some response, transport, none, none⟩

def rejectResult (message : Message) (action : RuleActionReject) : Option ExchangeResult :=
  match action.method with
  | .default => some ⟨some (dnsRefusedResponse message), none, some action, none⟩
  | .drop => some ⟨none, none, some action, some .drop⟩
  | .reply => none

def predefinedResult (response : Message) : ExchangeResult := ⟨some response, none, none, none⟩

def exchangeResult (transport : Transport) : Outcome → ExchangeResult
  | .ok response => ⟨some response, some transport, none, none⟩
  | .error err => ⟨none, some transport, none, some err⟩

/-- `dnsEvaluatedFuture`; its response and error are the answer to the query once it is resolved. -/
structure Future where
  tag : String
  query : Query
  resolved : Bool
  settled : Bool

variable {κ : Type}

structure ArmedRule (κ : Type) where
  ruleIndex : ℕ
  rule : DNSRule κ
  futures : List ℕ
  anonymousFuture : Option ℕ
  bindsAnonymous : Bool
  options : DNSQueryOptions

inductive PendingExchange where
  | exchange (rule : ℕ) (transport : Transport) (options : DNSQueryOptions)
  | future (index : ℕ)

inductive Suspension where
  | await (future : ℕ)
  | drain
  | pending (exchange : PendingExchange)

/-- Where the walk stands. `settling` and `sweeping` are the calls of `settleDNSFutures` and
`sweepArmedDNSRules`, inside the walk or with the suspension it has returned; `waiting` is the receive from
`wake`. -/
inductive Phase where
  | head
  | settling (suspension : Option Suspension)
  | binding
  | matching
  | sweeping (suspension : Option Suspension) (index : ℕ)
  | deciding (suspension : Suspension)
  | waiting (suspension : Suspension)
  | exchanging (pending : PendingExchange)
  | finished (result : ExchangeResult)

/-- `dnsRuleWalkState`. `wake` tells whether the channel holds a token; `signals` counts the callbacks that have
closed the channel of their future and not yet sent. -/
structure WalkState (κ : Type) where
  ruleIndex : ℕ
  effectiveOptions : DNSQueryOptions
  anonymousFuture : Option ℕ
  namedFutures : String → Option ℕ
  namedResponses : String → Option Message
  namedTransports : String → Option Transport
  futures : List Future
  armedRules : List (ArmedRule κ)
  terminalFuture : Option ℕ
  terminalIndex : ℕ
  wake : Bool
  signals : ℕ

structure Walk (κ : Type) where
  phase : Phase
  state : WalkState κ

/-- The router, the arguments of `exchangeWithRules`, and the final outcome of every query. -/
structure Exchange (κ : Type) where
  transports : String → Option Transport
  defaultTransport : Transport
  defaultDomainStrategy : DomainStrategy
  rules : List (DNSRule κ)
  message : Message
  options : DNSQueryOptions
  allowFakeIP : Bool
  metadata : Metadata κ
  answer : Query → Outcome

namespace WalkState

section

variable (s : WalkState κ)

def isResolved (future : ℕ) : Bool := s.futures[future]?.any Future.resolved

def pendingFutures (rule : DNSRule κ) : List ℕ :=
  (rule.tags.filterMap s.namedFutures ++ if rule.anonymous then s.anonymousFuture.toList else []).filter
    fun future => !s.isResolved future

def next : Walk κ := ⟨.head, { s with ruleIndex := s.ruleIndex + 1 }⟩

def suspend (suspension : Suspension) : Walk κ := ⟨.settling (some suspension), s⟩

def finish (result : ExchangeResult) : Walk κ := ⟨.finished result, s⟩

def arm (rule : DNSRule κ) : WalkState κ :=
  { s with
    armedRules := s.armedRules ++ [{
      ruleIndex := s.ruleIndex
      rule := rule
      futures := s.pendingFutures rule
      anonymousFuture := if rule.anonymous then s.anonymousFuture else none
      bindsAnonymous := rule.anonymous
      options := s.effectiveOptions }] }

end

end WalkState

namespace Exchange

variable (x : Exchange κ)

def finalizeExchangeOptions (options : DNSQueryOptions) : DNSQueryOptions :=
  if options.strategy = .asIS then { options with strategy := x.defaultDomainStrategy } else options

def resolveDNSRoute (server : String) (routeOptions : RuleActionDNSRouteOptions) (options : DNSQueryOptions) :
    Option (Transport × DNSQueryOptions) :=
  match x.transports server with
  | none => none
  | some transport =>
    if transport.isFakeIP && !x.allowFakeIP then none
    else
      let options := applyDNSRouteOptions options routeOptions
      some (transport, if transport.isFakeIP then { options with disableCache := true } else options)

def query (rule : ℕ) (transport : Transport) (options : DNSQueryOptions) : Query :=
  ⟨rule, transport, x.finalizeExchangeOptions options⟩

def view (future : Future) : Option Message := if future.resolved then (x.answer future.query).toOption else none

def viewAt (s : WalkState κ) (future : ℕ) : Option Message := s.futures[future]?.bind x.view

def anonymousResponse (s : WalkState κ) : Option Message := s.anonymousFuture.bind (x.viewAt s)

def launchDNSEvaluate (s : WalkState κ) (tag : String) (transport : Transport) (options : DNSQueryOptions) :
    WalkState κ :=
  { s with futures := s.futures ++ [⟨tag, x.query s.ruleIndex transport options, false, false⟩] }

def settle (future : Future) : Future := { future with settled := future.settled || future.resolved }

def published (future : Future) : Bool := !future.settled && future.resolved && future.tag ≠ ""

section

variable (s : WalkState κ)

def settleDNSFutures : WalkState κ :=
  { s with
    futures := s.futures.map settle
    namedResponses := updateAll published Future.tag x.view s.futures s.namedResponses
    namedTransports := updateAll published Future.tag (fun future => some future.query.transport) s.futures
      s.namedTransports }

def act (rule : DNSRule κ) : Walk κ :=
  match rule.action with
  | .routeOptions options => { s with effectiveOptions := applyDNSRouteOptions s.effectiveOptions options }.next
  | .evaluate server tag speculative options =>
    match x.transports server with
    | none => if tag = "" then { s with anonymousFuture := none }.next else s.next
    | some transport =>
      if !speculative && !s.armedRules.isEmpty then s.suspend .drain
      else
        let launched := x.launchDNSEvaluate s tag transport (applyDNSRouteOptions s.effectiveOptions options)
        if tag = "" then { launched with anonymousFuture := some s.futures.length }.next
        else { launched with namedFutures := Function.update s.namedFutures tag (some s.futures.length) }.next
  | .respond =>
    if !s.armedRules.isEmpty then s.suspend .drain
    else if rule.matchResponseTag ≠ "" then
      s.finish (respondResult (s.namedResponses rule.matchResponseTag) (s.namedTransports rule.matchResponseTag))
    else match s.anonymousFuture with
      | none => s.finish (respondResult none none)
      | some future =>
        if !rule.hasBindings && !s.isResolved future then s.suspend (.await future)
        else s.finish (respondResult (x.viewAt s future) (s.futures[future]?.map (·.query.transport)))
  | .route server speculative options =>
    match x.resolveDNSRoute server options s.effectiveOptions with
    | none => s.next
    | some (transport, options) =>
      if !s.armedRules.isEmpty then
        if speculative && s.terminalFuture.isNone then
          { x.launchDNSEvaluate s "" transport options with
            terminalFuture := some s.futures.length, terminalIndex := s.ruleIndex }.suspend .drain
        else s.suspend .drain
      else match s.terminalFuture with
        | some future =>
          if s.terminalIndex = s.ruleIndex then s.suspend (.pending (.future future))
          else s.suspend (.pending (.exchange s.ruleIndex transport options))
        | none => s.suspend (.pending (.exchange s.ruleIndex transport options))
  | .reject action =>
    if !s.armedRules.isEmpty then s.suspend .drain
    else match rejectResult x.message action with
      | none => s.next
      | some result => s.finish result
  | .predefined response =>
    if !s.armedRules.isEmpty then s.suspend .drain
    else s.finish (predefinedResult (response x.message))

def armedResponse (armed : ArmedRule κ) : Option Message :=
  if armed.bindsAnonymous then armed.anonymousFuture.bind (x.viewAt s) else x.anonymousResponse s

def commit (armed : ArmedRule κ) : Option (ExchangeResult ⊕ PendingExchange) :=
  match armed.rule.action with
  | .respond =>
    if armed.rule.matchResponseTag ≠ "" then
      some (.inl (respondResult (s.namedResponses armed.rule.matchResponseTag)
        (s.namedTransports armed.rule.matchResponseTag)))
    else match armed.anonymousFuture.or s.anonymousFuture with
      | none => some (.inl (respondResult none none))
      | some future =>
        some (.inl (respondResult (x.viewAt s future) (s.futures[future]?.map (·.query.transport))))
  | .route server _ options =>
    match x.resolveDNSRoute server options armed.options with
    | none => none
    | some (transport, options) => some (.inr (.exchange armed.ruleIndex transport options))
  | .reject action => (rejectResult x.message action).map .inl
  | .predefined response => some (.inl (predefinedResult (response x.message)))
  | .routeOptions _ | .evaluate _ _ _ _ => none

def sweep (suspension : Option Suspension) (index : ℕ) : Walk κ :=
  match s.armedRules[index]? with
  | none =>
    match suspension with
    | none => s.next
    | some suspension => ⟨.deciding suspension, s⟩
  | some armed =>
    if !armed.futures.all s.isResolved then ⟨.sweeping suspension (index + 1), s⟩
    else
      let swept := { s with armedRules := s.armedRules.eraseIdx index }
      if armed.rule.matchWith x.metadata (x.armedResponse s armed) s.namedResponses then
        match x.commit s armed with
        | none => ⟨.sweeping suspension index, swept⟩
        | some (.inl result) => swept.finish result
        | some (.inr pending) =>
          match suspension with
          | none => { s with armedRules := [] }.suspend (.pending pending)
          | some _ => ⟨.exchanging pending, swept⟩
      else ⟨.sweeping suspension index, swept⟩

def blocked : Suspension → Bool
  | .await future => !s.isResolved future
  | .drain => !s.armedRules.isEmpty
  | .pending _ => false

end

inductive Step where
  | advance
  | complete (future : ℕ)
  | signal

def advance (s : WalkState κ) : Phase → Option (Walk κ)
  | .head =>
    match x.rules[s.ruleIndex]? with
    | none =>
      if !s.armedRules.isEmpty then some (s.suspend .drain)
      else some (s.suspend (.pending (.exchange s.ruleIndex x.defaultTransport s.effectiveOptions)))
    | some rule => some ⟨if rule.hasBindings then .settling none else .matching, s⟩
  | .settling none => some ⟨.binding, x.settleDNSFutures s⟩
  | .settling (some suspension) => some ⟨.sweeping (some suspension) 0, x.settleDNSFutures s⟩
  | .binding => x.rules[s.ruleIndex]?.map fun rule =>
    if rule.race then
      if (s.pendingFutures rule).isEmpty then ⟨.sweeping none 0, s.arm rule⟩ else (s.arm rule).next
    else match s.pendingFutures rule with
      | future :: _ => s.suspend (.await future)
      | [] => ⟨.matching, s⟩
  | .matching => x.rules[s.ruleIndex]?.map fun rule =>
    if rule.matchWith x.metadata (x.anonymousResponse s) s.namedResponses then x.act s rule else s.next
  | .sweeping suspension index => some (x.sweep s suspension index)
  | .deciding suspension =>
    match suspension with
    | .pending pending => some ⟨.exchanging pending, s⟩
    | _ => some ⟨if blocked s suspension then .waiting suspension else .head, s⟩
  | .waiting suspension => if s.wake then some ⟨.settling (some suspension), { s with wake := false }⟩ else none
  | .exchanging (.exchange rule transport options) =>
    some (s.finish (exchangeResult transport (x.answer (x.query rule transport options))))
  | .exchanging (.future future) =>
    match s.futures[future]? with
    | none => none
    | some launched =>
      if launched.resolved then some (s.finish (exchangeResult launched.query.transport (x.answer launched.query)))
      else none
  | .finished _ => none

def complete (s : WalkState κ) (future : ℕ) : Option (WalkState κ) :=
  match s.futures[future]? with
  | none => none
  | some launched =>
    if launched.resolved then none
    else some { s with futures := s.futures.set future { launched with resolved := true }, signals := s.signals + 1 }

def signal (s : WalkState κ) : Option (WalkState κ) :=
  if s.signals = 0 then none else some { s with signals := s.signals - 1, wake := true }

def step (w : Walk κ) : Step → Option (Walk κ)
  | .advance => x.advance w.state w.phase
  | .complete future => (complete w.state future).map fun s => ⟨w.phase, s⟩
  | .signal => (signal w.state).map fun s => ⟨w.phase, s⟩

def start : Walk κ where
  phase := .head
  state := {
    ruleIndex := 0
    effectiveOptions := x.options
    anonymousFuture := none
    namedFutures := fun _ => none
    namedResponses := fun _ => none
    namedTransports := fun _ => none
    futures := []
    armedRules := []
    terminalFuture := none
    terminalIndex := 0
    wake := false
    signals := 0 }

end Exchange

end Hydracore.Dns
