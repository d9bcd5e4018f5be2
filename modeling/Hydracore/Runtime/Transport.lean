import Hydracore.Systems.Runs

namespace Hydracore.Runtime

inductive TransportState
  | unset
  | starting
  | waitingUser
  | healthy
  | degraded
  | recovering
  | failed
deriving DecidableEq

structure TransportFailure where
  stage : String
  kind : String
  code : String
  retryAfterMS : ℤ := 0
  challengeID : String := ""
  domain : String
  terminal : Bool := false
deriving DecidableEq

structure TransportHealthSnapshot where
  transportTag : String := ""
  state : TransportState := .unset
  activeLanes : ℕ := 0
  totalLanes : ℕ := 0
  demand : Bool := false
  lastProgressAt : ℤ := 0
  lastAggregateProgressAt : ℤ := 0
  lastInboundAt : ℤ := 0
  observedAt : ℤ := 0
  applicable : Bool := false
  runtimeGeneration : UInt64 := 0
  networkGeneration : UInt64 := 0
  quicRttMillis : ℤ := 0
  failure : Option TransportFailure := none
deriving DecidableEq

structure RuntimeChallenge where
  id : String
  kind : String
  url : String
  createdAt : ℤ
  expiresAt : ℤ
deriving DecidableEq

/-- A callback is known by a number; `healthChanged` counts the channels that have been closed. -/
structure RuntimeTransport where
  generation : UInt64 := 0
  health : TransportHealthSnapshot := {}
  challenge : Option RuntimeChallenge := none
  cancelChallenge : Option ℕ := none
  healthChanged : ℕ := 0

def equalMaterialTransportHealth (left right : TransportHealthSnapshot) : Bool :=
  let material (snapshot : TransportHealthSnapshot) : TransportHealthSnapshot :=
    { snapshot with observedAt := 0, lastProgressAt := 0, lastAggregateProgressAt := 0, lastInboundAt := 0 }
  material left = material right

def completed (snapshot : TransportHealthSnapshot) (now : ℤ) : TransportHealthSnapshot :=
  let snapshot := if snapshot.state = .unset then { snapshot with state := .starting } else snapshot
  if snapshot.observedAt = 0 then { snapshot with observedAt := now } else snapshot

namespace RuntimeTransport

section

variable (r : RuntimeTransport)

def notifyTransportHealthChanged : RuntimeTransport :=
  { r with healthChanged := r.healthChanged + 1 }

def setRuntimeGeneration (generation : UInt64) : RuntimeTransport :=
  { r with generation := generation }

def publishTransportHealth (generation : UInt64) (snapshot : TransportHealthSnapshot)
    (now : ℤ) : RuntimeTransport :=
  if generation < r.generation then r
  else
    let snapshot := { completed snapshot now with runtimeGeneration := generation }
    let changed := !equalMaterialTransportHealth r.health snapshot
    let r := { r with generation := generation, health := snapshot }
    if changed then r.notifyTransportHealthChanged else r

/-- `challenged` is the second read, of the pending challenge, which is made after the lock is released. -/
def currentTransportHealth (challenged : Bool) (now : ℤ) : TransportHealthSnapshot :=
  let snapshot := { r.health with runtimeGeneration := r.generation }
  let snapshot :=
    if snapshot.state = .unset then { snapshot with state := .starting, observedAt := now } else snapshot
  if challenged then { snapshot with state := .waitingUser } else snapshot

def publishRuntimeChallenge (challenge : RuntimeChallenge) (cancel : Option ℕ) :
    RuntimeTransport :=
  let changed := r.challenge ≠ some challenge
  let r := { r with challenge := some challenge, cancelChallenge := cancel }
  if changed then r.notifyTransportHealthChanged else r

def names (id : String) : Bool :=
  r.challenge.any fun challenge => id = "" ∨ challenge.id = id

def clearRuntimeChallenge (id : String) : RuntimeTransport :=
  if r.names id then { r with challenge := none, cancelChallenge := none }.notifyTransportHealthChanged else r

def cancelRuntimeChallenge (id : String) : RuntimeTransport × Option ℕ :=
  if r.names id then
    ({ r with challenge := none, cancelChallenge := none }.notifyTransportHealthChanged, r.cancelChallenge)
  else (r, none)

def resetHealth (now : ℤ) : RuntimeTransport :=
  { r with generation := 0, health := { state := .starting, observedAt := now } }.notifyTransportHealthChanged

end

end RuntimeTransport

/-- `StartOrReloadService` and `CloseService`; only a start carries a generation to set. -/
inductive ServiceCall
  | cancelling (generation : Option UInt64)
  | resetting (generation : Option UInt64)
  | setting (generation : UInt64)
  | returned

structure State where
  transport : RuntimeTransport := {}
  calls : List ServiceCall := []
  cancelled : List ℕ := []
  published : List (UInt64 × TransportHealthSnapshot) := []

inductive Action
  | publish (generation : UInt64) (snapshot : TransportHealthSnapshot) (now : ℤ)
  | publishChallenge (challenge : RuntimeChallenge) (cancel : Option ℕ)
  | clearChallenge (id : String)
  | cancelChallenge (id : String)
  | startOrReload (runtimeGeneration : Option ℤ)
  | closeService
  | advance (call : ℕ) (now : ℤ)

def ServiceCall.advance (t : RuntimeTransport) (now : ℤ) : ServiceCall → Option (ServiceCall × RuntimeTransport × Option ℕ)
  | .cancelling generation =>
    let (t, cancel) := t.cancelRuntimeChallenge ""
    some (.resetting generation, t, cancel)
  | .resetting none => some (.returned, t.resetHealth now, none)
  | .resetting (some generation) => some (.setting generation, t.resetHealth now, none)
  | .setting generation => some (.returned, t.setRuntimeGeneration generation, none)
  | .returned => none

def step (s : State) : Action → Option State
  | .publish generation snapshot now =>
    some { s with
      transport := s.transport.publishTransportHealth generation snapshot now
      published := s.published ++ [(generation, completed snapshot now)] }
  | .publishChallenge challenge cancel =>
    some { s with transport := s.transport.publishRuntimeChallenge challenge cancel }
  | .clearChallenge id => some { s with transport := s.transport.clearRuntimeChallenge id }
  | .cancelChallenge id =>
    let (transport, cancel) := s.transport.cancelRuntimeChallenge id
    some { s with transport := transport, cancelled := s.cancelled ++ cancel.toList }
  | .startOrReload runtimeGeneration =>
    let positive := runtimeGeneration.bind fun g => if 0 < g then some (UInt64.ofInt g) else none
    some { s with calls := s.calls ++ [.cancelling positive] }
  | .closeService => some { s with calls := s.calls ++ [.cancelling none] }
  | .advance i now => do
    let call ← s.calls[i]?
    let (next, transport, cancel) ← call.advance s.transport now
    return { s with
      transport := transport, calls := s.calls.set i next, cancelled := s.cancelled ++ cancel.toList }

end Hydracore.Runtime
