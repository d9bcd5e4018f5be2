import Hydracore.Runtime.Transport

/-!
The health loop of one `Client` beside the workers that change its paths. The
loop takes its readings one after the other, so anything may happen in between.
-/

namespace Hydracore.Parasite.Health

open Hydracore.Runtime

structure ControlPlaneError where
  stage : String
  kind : String
  code : String
  retryAfterMS : ℤ
  challengeID : String
  terminal : Bool

inductive DialError
  | control (e : ControlPlaneError)
  | other

def transportFailureDomain (kind : String) : String :=
  if kind = "captcha" then "AUTH"
  else if kind = "credentials" then "CREDENTIALS"
  else if kind = "turn" then "TURN"
  else if kind = "dtls" then "DTLS"
  else if kind = "quic" then "QUIC"
  else if kind = "network" then "NETWORK"
  else "INTERNAL"

def transportFailure : DialError → TransportFailure
  | .control e =>
    { stage := e.stage, kind := e.kind, code := e.code, retryAfterMS := e.retryAfterMS, challengeID := e.challengeID,
      domain := transportFailureDomain e.kind, terminal := e.terminal }
  | .other => { stage := "transport", kind := "network", code := "worker_failed", domain := "NETWORK" }

def captchaFailure (challenge : RuntimeChallenge) : TransportFailure :=
  { stage := "vk_auth", kind := "captcha", code := "14", challengeID := challenge.id, domain := "AUTH" }

structure Options where
  transportTag : String
  workers : ℕ

inductive Loop
  | waiting
  | sampled (activePaths : ℕ)
  | measured (activePaths : ℕ) (rttMillis : ℤ)
  | questioned (activePaths : ℕ) (rttMillis : ℤ) (challenge : Option RuntimeChallenge)
  | cleared (activePaths : ℕ) (rttMillis : ℤ) (challenge : Option RuntimeChallenge)
  | loaded (activePaths : ℕ) (rttMillis : ℤ) (challenge : Option RuntimeChallenge) (failure : Option TransportFailure)
  | decided (snapshot : TransportHealthSnapshot)
deriving DecidableEq

structure Publication where
  snapshot : TransportHealthSnapshot
  everActive : Bool

structure State where
  paths : ℕ
  initialPending : ℕ
  sawPath : Bool
  sawChallenge : Bool
  lastFailure : Option TransportFailure
  healthWake : Bool
  challenge : Option RuntimeChallenge
  loop : Loop
  everActive : Bool
  published : List Publication

inductive Action
  | addPath
  | removePath
  | dialFailed (e : DialError)
  | dialSucceeded
  | initialDone
  | publishChallenge (challenge : RuntimeChallenge)
  | clearChallenge
  | tick
  | woken
  | proceed (now rttMillis : ℤ)

def stateOf (workers activePaths : ℕ) (challenge : Option RuntimeChallenge) (pending sawPath : Bool)
    (failure : Option TransportFailure) : TransportState :=
  if challenge.isSome then .waitingUser
  else if activePaths = workers then .healthy
  else if activePaths > 0 then .degraded
  else if pending then .starting
  else if failure.any (fun f => !sawPath || f.terminal) then .failed
  else if !sawPath then .starting
  else .recovering

def failureOf (activePaths : ℕ) (challenge : Option RuntimeChallenge) (state : TransportState)
    (failure : Option TransportFailure) : Option TransportFailure :=
  match challenge with
  | some challenge => some (captchaFailure challenge)
  | none => if activePaths = 0 ∧ state ≠ .healthy then failure else none

def wakeHealth (s : State) : State := { s with healthWake := true }

def recordPathFailure (s : State) (e : DialError) : State :=
  wakeHealth { s with lastFailure := some (transportFailure e) }

def Loop.proceed (options : Options) (s : State) (now rttMillis : ℤ) : Loop → Option State
  | .waiting => none
  | .sampled activePaths =>
    some { s with sawPath := s.sawPath || 0 < activePaths, loop := .measured activePaths rttMillis }
  | .measured activePaths rtt => some { s with loop := .questioned activePaths rtt s.challenge }
  | .questioned activePaths rtt challenge =>
    if challenge.isNone && s.sawChallenge then
      some { s with lastFailure := none, sawChallenge := false, loop := .cleared activePaths rtt challenge }
    else some { s with loop := .cleared activePaths rtt challenge }
  | .cleared activePaths rtt challenge => some { s with loop := .loaded activePaths rtt challenge s.lastFailure }
  | .loaded activePaths rtt challenge failure =>
    let state := stateOf options.workers activePaths challenge (0 < s.initialPending) s.sawPath failure
    some { s with
      sawChallenge := s.sawChallenge || challenge.isSome
      loop := .decided
        { transportTag := options.transportTag, state := state, activeLanes := activePaths, totalLanes := options.workers,
          observedAt := now, applicable := true, quicRttMillis := rtt,
          failure := failureOf activePaths challenge state failure } }
  | .decided snapshot =>
    some { s with loop := .waiting, published := s.published ++ [⟨snapshot, s.everActive⟩] }

def beginIteration (s : State) : Option State :=
  if s.loop = .waiting then some { s with loop := .sampled s.paths } else none

def step (options : Options) (s : State) : Action → Option State
  | .addPath => some (wakeHealth { s with paths := s.paths + 1, everActive := true })
  | .removePath => if 0 < s.paths then some (wakeHealth { s with paths := s.paths - 1 }) else none
  | .dialFailed e => some (recordPathFailure s e)
  | .dialSucceeded => some { s with lastFailure := none }
  | .initialDone =>
    if 0 < s.initialPending then some (wakeHealth { s with initialPending := s.initialPending - 1 }) else none
  | .publishChallenge challenge => some { s with challenge := some challenge }
  | .clearChallenge => some { s with challenge := none }
  | .tick => beginIteration s
  | .woken => if s.healthWake then beginIteration { s with healthWake := false } else none
  | .proceed now rttMillis => s.loop.proceed options s now rttMillis

/-- `ConnectClient`, once the relay has been started; a challenge may be pending from before. -/
def connected (options : Options) (challenge : Option RuntimeChallenge) : State where
  paths := 0
  initialPending := options.workers
  sawPath := false
  sawChallenge := false
  lastFailure := none
  healthWake := false
  challenge := challenge
  loop := .waiting
  everActive := false
  published := []

end Hydracore.Parasite.Health
