import Hydracore.Systems.Runs
import Hydracore.Systems.Notices
import Mathlib.Data.Fintype.Basic

/-!
The runtime event stream of the daemon: the started service with its instances, and one `SubscribeRuntimeEvents` call
that reads snapshots, keeps the groups of the last one and sends what has changed.
-/

namespace Hydracore.Daemon

open Systems Function

inductive Status where
  | idle
  | starting
  | started
  | stopping
  | fatal (errorMessage : String)
  deriving DecidableEq

def Status.shown : Status → Status
  | fatal message => if message = "" then fatal "" else fatal "service failed; inspect local logs"
  | status => status

variable {γ χ τ η : Type}

structure Instance (γ χ : Type) where
  groups : List γ
  clashMode : Option χ

/-- `TransportHealth` is the part of it that makes two reports materially different. -/
structure Snapshot (γ χ τ η : Type) where
  service : Status
  startedAt : ℕ
  groups : List γ
  clashMode : Option χ
  sessions : List τ
  health : η
  deriving DecidableEq

inductive Event (γ χ τ η : Type) where
  | service (service : Status) (startedAt : ℕ)
  | groups (groups : List γ)
  | clashMode (clashMode : Option χ)
  | sessions (sessions : List τ)
  | health (health : η)
  deriving DecidableEq

inductive Message (γ χ τ η : Type) where
  | reset (snapshot : Snapshot γ χ τ η)
  | events (events : List (Event γ χ τ η))
  deriving DecidableEq

def Snapshot.apply (s : Snapshot γ χ τ η) : Event γ χ τ η → Snapshot γ χ τ η
  | .service service startedAt => { s with service := service, startedAt := startedAt }
  | .groups groups => { s with groups := groups }
  | .clashMode clashMode => { s with clashMode := clashMode }
  | .sessions sessions => { s with sessions := sessions }
  | .health health => { s with health := health }

def Message.fold : Option (Snapshot γ χ τ η) → Message γ χ τ η → Option (Snapshot γ χ τ η)
  | _, .reset snapshot => some snapshot
  | view, .events changes => view.map fun s => changes.foldl Snapshot.apply s

def eventsBetween [DecidableEq γ] [DecidableEq χ] [DecidableEq τ] [DecidableEq η]
    (previous current : Snapshot γ χ τ η) : List (Event γ χ τ η) :=
  (if previous.service ≠ current.service ∨ previous.startedAt ≠ current.startedAt then
    [Event.service current.service current.startedAt] else []) ++
  (if previous.groups ≠ current.groups then [Event.groups current.groups] else []) ++
  (if previous.clashMode ≠ current.clashMode then [Event.clashMode current.clashMode] else []) ++
  (if previous.sessions ≠ current.sessions then [Event.sessions current.sessions] else []) ++
  (if previous.health ≠ current.health then [Event.health current.health] else [])

inductive Kind where
  | service
  | urlTest
  | session
  | clashMode
  deriving DecidableEq

instance : Fintype Kind where
  elems := {.service, .urlTest, .session, .clashMode}
  complete kind := by cases kind <;> decide

def Kind.subscriberSize : Kind → ℕ
  | service => 4
  | _ => 1

def Kind.observerSize : Kind → ℕ
  | service => 2
  | _ => 1

/-- What holds `lifecycleAccess`: `closingOld` and `closing` wait for an instance to close, `creating` for `newInstance`,
`running` for the `Start` of the instance. -/
inductive Lifecycle where
  | free
  | closingOld
  | creating
  | running
  | closing
  deriving DecidableEq

inductive Round where
  | reset
  | first
  | second
  deriving DecidableEq

inductive Stage where
  | arm
  | service
  | sessions
  | health
  | groups
  | done
  deriving DecidableEq

structure Reading (γ χ τ η : Type) where
  round : Round
  stage : Stage
  cache : Option (List γ)
  isStarted : Bool
  snapshot : Snapshot γ χ τ η
  deriving DecidableEq

inductive Phase (γ χ τ η : Type) where
  | absent
  | reading (r : Reading γ χ τ η)
  | sending (message : Message γ χ τ η)
  | waiting
  deriving DecidableEq

/-- `owed` counts changes that have yet to be announced, `healthClosed` is the channel the stream holds. -/
structure Service (γ χ τ η : Type) where
  status : Status
  startedAt : ℕ
  runtime : Option (Instance γ χ)
  startInterrupted : Bool
  lifecycle : Lifecycle
  sessions : List τ
  health : η
  owed : Kind → ℕ
  notices : Kind → Notices
  healthClosed : Bool
  phase : Phase γ χ τ η
  previous : Snapshot γ χ τ η
  startedBefore : Bool
  sent : List (Message γ χ τ η)

inductive Step (γ χ τ η : Type) where
  | startOrReload
  | oldClosed
  | created (groups : List γ) (clashMode : Option χ)
  | notCreated (errorMessage : String)
  | startReturned (now : ℕ) (errorMessage : Option String)
  | closeService
  | closed
  | interruptStart
  | setError (errorMessage : String)
  | changeGroups (groups : List γ)
  | shiftGroups (groups : List γ)
  | changeClashMode (clashMode : χ)
  | changeSessions (sessions : List τ)
  | changeHealth (health : η)
  | announce (kind : Kind)
  | relay (kind : Kind)
  | deliver (kind : Kind)
  | subscribe
  | read
  | finish
  | sent
  | wake (kind : Kind)
  | wakeHealth
  | wakeTimer

namespace Service

def initial (health : η) : Service γ χ τ η :=
  { status := .idle
    startedAt := 0
    runtime := none
    startInterrupted := false
    lifecycle := .free
    sessions := []
    health := health
    owed := fun _ => 0
    notices := fun _ => .none
    healthClosed := false
    phase := .absent
    previous := ⟨.idle, 0, [], none, [], health⟩
    startedBefore := false
    sent := [] }

section

variable (s : Service γ χ τ η)

def emit (kind : Kind) : Service γ χ τ η :=
  { s with notices := update s.notices kind ((s.notices kind).emit kind.subscriberSize) }

def updateStatus (status : Status) : Service γ χ τ η :=
  { s.emit .service with status := status }

def isStarted : Bool := s.status = .started && s.runtime.isSome

/-- `StartOrReloadService` up to the close of the old instance, or to `newInstance` if there is none. -/
def startOrReload : Service γ χ τ η :=
  if s.runtime.isSome then
    { s.updateStatus .stopping with runtime := none, lifecycle := .closingOld }
  else { s.updateStatus .starting with startInterrupted := false, lifecycle := .creating }

def created (groups : List γ) (clashMode : Option χ) : Service γ χ τ η :=
  { s with
    runtime := some ⟨groups, clashMode⟩
    lifecycle := .running
    owed := update (update s.owed .urlTest 0) .clashMode 0 }

def startReturned (now : ℕ) (errorMessage : Option String) : Service γ χ τ η :=
  if s.startInterrupted then { s with startInterrupted := false, runtime := none, lifecycle := .free }
  else match errorMessage with
    | some message => { s.updateStatus (.fatal message) with runtime := none, lifecycle := .free }
    | none => { s.updateStatus .started with startedAt := now + 1, lifecycle := .free }

def closeService : Service γ χ τ η :=
  if s.runtime.isNone ∧ s.status ≠ .starting ∧ s.status ≠ .started then s
  else { s.updateStatus .stopping with runtime := none, lifecycle := .closing }

def interruptStart : Service γ χ τ η :=
  if s.status = .starting ∧ s.runtime.isSome then { s with startInterrupted := true } else s

def owe (kind : Kind) : Service γ χ τ η :=
  { s with owed := update s.owed kind (s.owed kind + 1) }

def announce (kind : Kind) : Service γ χ τ η :=
  { s.emit kind with owed := update s.owed kind (s.owed kind - 1) }

/-- One lookup of `readRuntimeSnapshotWithGroups`. In the reset round `startedBefore` is what the status is read as. -/
def read (r : Reading γ χ τ η) : Option (Service γ χ τ η) :=
  match r.stage with
  | .arm => some { s with healthClosed := false, phase := .reading { r with stage := .service } }
  | .service =>
    some { s with
      startedBefore := if r.round = .reset then s.status = .started else s.startedBefore
      phase := .reading { r with
        stage := .sessions
        isStarted := s.isStarted
        snapshot := { r.snapshot with
          service := s.status.shown
          startedAt := s.startedAt
          groups := []
          clashMode := none } } }
  | .sessions =>
    some { s with phase := .reading { r with
      stage := .health
      snapshot := { r.snapshot with sessions := s.sessions } } }
  | .health =>
    some { s with phase := .reading { r with
      stage := .groups
      snapshot := { r.snapshot with health := s.health } } }
  | .groups =>
    if r.isStarted then
      match (if s.status = .started then s.runtime else none) with
      | none =>
        some { s with phase := .reading { r with
          stage := .done
          snapshot := { r.snapshot with groups := r.cache.getD [] } } }
      | some runtime =>
        some { s with phase := .reading { r with
          stage := .done
          snapshot := { r.snapshot with groups := r.cache.getD runtime.groups, clashMode := runtime.clashMode } } }
    else some { s with phase := .reading { r with stage := .done } }
  | .done => none

end

def newReading (round : Round) (stage : Stage) (cache : Option (List γ)) (snapshot : Snapshot γ χ τ η) :
    Reading γ χ τ η :=
  ⟨round, stage, cache, false, snapshot⟩

def wakeUp (s : Service γ χ τ η) (cache : Option (List γ)) : Service γ χ τ η :=
  { s with phase := .reading (newReading .first .arm cache s.previous) }

def wake (s : Service γ χ τ η) (kind : Kind) : Option (Service γ χ τ η) :=
  ((s.notices kind).receive).map fun n =>
    { s.wakeUp (if kind = .urlTest then none else some s.previous.groups) with
      notices := update s.notices kind n }

section Rounds

variable [DecidableEq γ] [DecidableEq χ] [DecidableEq τ] [DecidableEq η]

def commit (s : Service γ χ τ η) (current : Snapshot γ χ τ η) : Service γ χ τ η :=
  { s with
    previous := current
    phase := if eventsBetween s.previous current = [] then .waiting
      else .sending (.events (eventsBetween s.previous current)) }

def finish (s : Service γ χ τ η) (r : Reading γ χ τ η) : Option (Service γ χ τ η) :=
  if r.stage ≠ .done then none
  else match r.round with
    | .reset => some { s with previous := r.snapshot, phase := .sending (.reset r.snapshot) }
    | .first =>
      let startedNow : Bool := r.snapshot.service = .started
      if startedNow ≠ s.startedBefore then
        some { s with
          startedBefore := startedNow
          phase := .reading (newReading .second .service none r.snapshot) }
      else some (s.commit r.snapshot)
    | .second => some (s.commit r.snapshot)

def step (s : Service γ χ τ η) : Step γ χ τ η → Option (Service γ χ τ η)
  | .startOrReload => if s.lifecycle = .free then some s.startOrReload else none
  | .oldClosed =>
    if s.lifecycle = .closingOld then
      some { s.updateStatus .starting with startInterrupted := false, lifecycle := .creating }
    else none
  | .created groups clashMode => if s.lifecycle = .creating then some (s.created groups clashMode) else none
  | .notCreated message =>
    if s.lifecycle = .creating then some { s.updateStatus (.fatal message) with lifecycle := .free } else none
  | .startReturned now message => if s.lifecycle = .running then some (s.startReturned now message) else none
  | .closeService => if s.lifecycle = .free then some s.closeService else none
  | .closed =>
    if s.lifecycle = .closing then some { s.updateStatus .idle with startedAt := 0, lifecycle := .free } else none
  | .interruptStart => some s.interruptStart
  | .setError message => some (s.updateStatus (.fatal message))
  | .changeGroups groups =>
    s.runtime.map fun runtime => { s.owe .urlTest with runtime := some { runtime with groups := groups } }
  -- a dial through a `Fallback` or `SetGroupExpand`, which tell nobody
  | .shiftGroups groups => s.runtime.map fun runtime => { s with runtime := some { runtime with groups := groups } }
  | .changeClashMode clashMode =>
    s.runtime.map fun runtime => { s.owe .clashMode with runtime := some { runtime with clashMode := some clashMode } }
  | .changeSessions sessions => some { s.owe .session with sessions := sessions }
  | .changeHealth health => some { s with health := health, healthClosed := true }
  | .announce kind => some (s.announce kind)
  | .relay kind => ((s.notices kind).relay).map fun n => { s with notices := update s.notices kind n }
  | .deliver kind =>
    match s.phase with
    | .absent => ((s.notices kind).discard).map fun n => { s with notices := update s.notices kind n }
    | _ =>
      ((s.notices kind).deliver kind.observerSize).map fun n =>
        { s with notices := update s.notices kind n }
  | .subscribe =>
    match s.phase with
    | .absent => some { s with phase := .reading (newReading .reset .arm none s.previous) }
    | _ => none
  | .read =>
    match s.phase with
    | .reading r => s.read r
    | _ => none
  | .finish =>
    match s.phase with
    | .reading r => s.finish r
    | _ => none
  | .sent =>
    match s.phase with
    | .sending message => some { s with sent := s.sent ++ [message], phase := .waiting }
    | _ => none
  | .wake kind =>
    match s.phase with
    | .waiting => s.wake kind
    | _ => none
  | .wakeHealth =>
    match s.phase with
    | .waiting => if s.healthClosed then some (s.wakeUp (some s.previous.groups)) else none
    | _ => none
  | .wakeTimer =>
    match s.phase with
    | .waiting => some (s.wakeUp (some s.previous.groups))
    | _ => none

end Rounds

def current (s : Service γ χ τ η) : Snapshot γ χ τ η :=
  { service := s.status.shown
    startedAt := s.startedAt
    groups := if s.isStarted then (s.runtime.map (·.groups)).getD [] else []
    clashMode := if s.isStarted then s.runtime.bind (·.clashMode) else none
    sessions := s.sessions
    health := s.health }

def view (s : Service γ χ τ η) : Option (Snapshot γ χ τ η) := s.sent.foldl Message.fold none

def Settled (s : Service γ χ τ η) : Prop :=
  s.phase = .waiting ∧ s.lifecycle = .free ∧ s.healthClosed = false ∧
    ∀ kind, s.owed kind = 0 ∧ (s.notices kind).pending = false

instance [DecidableEq γ] [DecidableEq χ] [DecidableEq τ] [DecidableEq η] (s : Service γ χ τ η) : Decidable s.Settled :=
  inferInstanceAs (Decidable (_ ∧ _))

def noticed (s : Service γ χ τ η) : Step γ χ τ η → Bool
  | .startReturned _ none => s.startInterrupted || !s.startedBefore
  | .shiftGroups _ =>
    (match s.phase with
      | .absent => true
      | _ => false) || !s.isStarted || ((s.notices .urlTest).pending || 0 < s.owed .urlTest)
  | _ => true

end Service

end Hydracore.Daemon
