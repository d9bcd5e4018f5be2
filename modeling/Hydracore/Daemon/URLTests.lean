import Hydracore.Daemon.Targets
import Hydracore.Systems.Runs
import Mathlib.Data.List.Sort

namespace Hydracore.Daemon.URLTest

inductive SessionState
  | running
  | succeeded
  | failed
  | cancelled
deriving DecidableEq

inductive Status
  | available
  | unavailable

structure Result where
  outboundTag : String
  observedAt : ℕ
  delayMillis : ℕ
  status : Status
  errorCode : String
  errorMessage : String

structure Failure where
  errorCode : String
  errorMessage : String
deriving DecidableEq

def errURLTestNotMeasured : Failure :=
  ⟨"network", "not measured: the session deadline expired before this probe started"⟩

structure Session where
  groupTag : String
  boxService : ℕ
  state : SessionState
  startedAt : ℕ
  completedAt : ℕ
  total : ℕ
  completed : ℕ
  succeeded : ℕ
  failed : ℕ
  results : List Result
  errorCode : String
  errorMessage : String

inductive ContextError
  | canceled
  | deadlineExceeded

inductive Worker
  | idle
  | took (target : Target)
  | probing (target : Target)
  | reporting (target : Target) (delay : ℕ) (err : Option Failure)
  | recording (target : Target) (now delay : ℕ) (err : Option Failure)
  | marking (target : Target)
  | done
deriving DecidableEq

/-- Where the goroutine of the session is: waiting for its workers, reporting what they left, or through. -/
inductive Stage
  | working
  | remaining (rest : List Target)
  | recording (target : Target) (now : ℕ) (rest : List Target)
  | finished
deriving DecidableEq

structure Runner where
  targets : List Target
  jobs : List Target
  workers : List Worker
  handled : List String
  ctx : Option ContextError
  stage : Stage

def normalizeConcurrency (concurrency : ℤ) : ℕ :=
  if concurrency ≤ 0 then 8 else if concurrency > 16 then 16 else concurrency.toNat

def newRunner (targets : List Target) (concurrency : ℕ) : Runner :=
  { targets, jobs := targets, workers := List.replicate (min concurrency targets.length) .idle, handled := [],
    ctx := none, stage := .working }

def Runner.ctxDone (runner : Runner) (reason : ContextError) : Runner :=
  { runner with ctx := runner.ctx.or (some reason) }

def Runner.put (runner : Runner) (w : ℕ) (worker : Worker) : Runner :=
  { runner with workers := runner.workers.set w worker }

def managedResult (target : Target) (now delay : ℕ) : Option Failure → Result
  | some failure => ⟨target.managedResultTag, now, 0, .unavailable, failure.errorCode, failure.errorMessage⟩
  | none => ⟨target.managedResultTag, now, if delay = 0 then 1 else delay, .available, "", ""⟩

def Session.recordURLTestResult (session : Session) (result : Result) (succeeded : Bool) : Session :=
  if session.state = .running then
    { session with
      results := session.results ++ [result]
      completed := session.completed + 1
      succeeded := session.succeeded + (if succeeded then 1 else 0)
      failed := session.failed + (if succeeded then 0 else 1) }
  else session

def Session.leave (session : Session) (state : SessionState) (now : ℕ) (errorCode errorMessage : String) : Session :=
  { session with state, completedAt := now, errorCode, errorMessage }

def Session.finish (session : Session) (ctx : Option ContextError) (now : ℕ) : Session :=
  if session.state = .running then
    match ctx with
    | some .canceled => session.leave .cancelled now "cancelled" "URL test session cancelled"
    | some .deadlineExceeded => session.leave .failed now "deadline" "URL test session deadline exceeded"
    | none =>
      if session.succeeded > 0 then session.leave .succeeded now session.errorCode session.errorMessage
      else session.leave .failed now "all_probes_failed" "all URL test probes failed"
  else session

structure Slot where
  session : Session
  runner : Runner

inductive Turn
  | leave
  | take
  | recheck
  | probed (delay : ℕ) (err : Option Failure)
  | check (now : ℕ)
  | record
  | mark
deriving DecidableEq

inductive Move
  | worker (w : ℕ) (turn : Turn)
  | collect
  | checkRest (now : ℕ)
  | recordRest
  | ctxDone (reason : ContextError)

/-- One turn of a worker of `runURLTestTargets`; `current` is what `isCurrentURLTestSession` answers now. -/
def Slot.work (slot : Slot) (current : Bool) (w : ℕ) : Worker → Turn → Option Slot
  | .idle, .leave =>
    if slot.runner.ctx.isSome ∨ slot.runner.jobs = [] then
      some { slot with runner := slot.runner.put w .done }
    else none
  | .idle, .take =>
    match slot.runner.jobs with
    | [] => none
    | target :: jobs => some { slot with runner := { slot.runner.put w (.took target) with jobs } }
  -- a job taken after the context was done is not probed, and nothing marks it as handled
  | .took target, .recheck =>
    some { slot with runner := slot.runner.put w (if slot.runner.ctx.isSome then .done else .probing target) }
  | .probing target, .probed delay err => some { slot with runner := slot.runner.put w (.reporting target delay err) }
  | .reporting target delay err, .check now =>
    some { slot with
      runner := slot.runner.put w (if current then .recording target now delay err else .marking target) }
  | .recording target now delay err, .record =>
    some
      { session := slot.session.recordURLTestResult (managedResult target now delay err) err.isNone
        runner := slot.runner.put w (.marking target) }
  | .marking target, .mark =>
    some { slot with runner := { slot.runner.put w .idle with handled := target.tag :: slot.runner.handled } }
  | _, _ => none

def Runner.unmeasured (runner : Runner) : List Target := runner.targets.filter (·.tag ∉ runner.handled)

section

variable (slot : Slot)

def Slot.collect : Option Slot :=
  if slot.runner.stage = .working ∧ (∀ worker ∈ slot.runner.workers, worker = .done) then
    some { slot with runner := { slot.runner with stage := .remaining slot.runner.unmeasured } }
  else none

def Slot.checkRest (current : Bool) (now : ℕ) : Option Slot :=
  match slot.runner.stage with
  | .remaining (target :: rest) =>
    some { slot with
      runner := { slot.runner with stage := if current then .recording target now rest else .remaining rest } }
  | _ => none

def Slot.recordRest : Option Slot :=
  match slot.runner.stage with
  | .recording target now rest =>
    some
      { session := slot.session.recordURLTestResult (managedResult target now 0 (some errURLTestNotMeasured)) false
        runner := { slot.runner with stage := .remaining rest } }
  | _ => none

def Slot.move (current : Bool) : Move → Option Slot
  | .worker w turn => (slot.runner.workers[w]?).bind fun worker => slot.work current w worker turn
  | .collect => slot.collect
  | .checkRest now => slot.checkRest current now
  | .recordRest => slot.recordRest
  | .ctxDone reason => some { slot with runner := slot.runner.ctxDone reason }

def Slot.cancel (now : ℕ) (errorCode errorMessage : String) : Slot :=
  if slot.session.state = .running then
    ⟨slot.session.leave .cancelled now errorCode errorMessage, slot.runner.ctxDone .canceled⟩
  else slot

def Slot.finish (now : ℕ) : Slot :=
  ⟨slot.session.finish slot.runner.ctx now, { slot.runner with stage := .finished }⟩

end

structure Service where
  slots : List Slot
  urlTestSessions : List ℕ
  urlTestSessionByGroup : String → Option ℕ

def Service.new : Service := ⟨[], [], fun _ => none⟩

def Service.running (s : Service) (id : ℕ) : Bool := s.slots[id]?.any fun slot => slot.session.state = .running

def Service.isCurrentURLTestSession (s : Service) (id : ℕ) : Bool :=
  s.slots[id]?.any fun slot =>
    s.urlTestSessionByGroup slot.session.groupTag = some id ∧ slot.session.state = .running

def Service.forget (s : Service) (groupTag : String) (id : ℕ) : Service :=
  if s.urlTestSessionByGroup groupTag = some id then
    { s with urlTestSessionByGroup := Function.update s.urlTestSessionByGroup groupTag none }
  else s

def maximumRetainedURLTestSessions : ℕ := 64

def Service.completedAt (s : Service) (id : ℕ) : ℕ := (s.slots[id]?.map (·.session.completedAt)).getD 0

/-- The map is read in any order and the sort is not stable: `order` is one way to sort the completed sessions. -/
def Service.prune (s : Service) (order : List ℕ) : Option Service :=
  let completed := s.urlTestSessions.filter fun id => !s.running id
  if completed.length ≤ maximumRetainedURLTestSessions then some s
  else if order.isPerm completed ∧ order.Pairwise (fun id id' => s.completedAt id ≤ s.completedAt id') then
    some { s with
      urlTestSessions :=
        s.urlTestSessions.filter (· ∉ order.take (completed.length - maximumRetainedURLTestSessions)) }
  else none

def newSession (boxService : ℕ) (groupTag : String) (targets : List Target) (now : ℕ) : Session :=
  { groupTag, boxService, state := .running, startedAt := now, completedAt := 0, total := targets.length,
    completed := 0, succeeded := 0, failed := 0, results := [], errorCode := "", errorMessage := "" }

section

variable (s : Service)

def Service.launch (boxService : ℕ) (request : Request) (targets : List Target) (now : ℕ) : Service where
  slots := s.slots ++ [⟨newSession boxService request.groupTag targets now,
      newRunner targets (normalizeConcurrency request.concurrency)⟩]
  urlTestSessions := s.slots.length :: s.urlTestSessions
  urlTestSessionByGroup := Function.update s.urlTestSessionByGroup request.groupTag (some s.slots.length)

def Service.existing (groupTag : String) : Option ℕ :=
  (s.urlTestSessionByGroup groupTag).filter (· ∈ s.urlTestSessions)

def Service.reusable (boxService : ℕ) (request : Request) : Bool :=
  (s.existing request.groupTag).any fun id =>
    s.slots[id]?.any fun slot =>
      slot.session.boxService = boxService ∧ slot.session.state = .running ∧ request.force = false

def Service.replace (groupTag : String) (now : ℕ) : Service :=
  match s.existing groupTag with
  | none => s
  | some id =>
    { s with slots := s.slots.modify id (·.cancel now "replaced" "replaced by a forced URL test session") }

/-- The part of `startURLTest` that runs once the request was checked and the service is started. -/
def Service.startURLTest (boxService : ℕ) (manager : Manager) (request : Request) (now : ℕ)
    (order : List ℕ) : Option Service :=
  match resolveURLTestTargets manager request with
  | .error _ => some s
  | .ok targets =>
    if s.reusable boxService request then some s
    else ((s.replace request.groupTag now).launch boxService request targets now).prune order

def Service.drop (id now : ℕ) (errorCode errorMessage : String) : Service :=
  match s.slots[id]? with
  | none => s
  | some slot =>
    if slot.session.state = .running then
      { s with slots := s.slots.set id (slot.cancel now errorCode errorMessage) }.forget slot.session.groupTag id
    else s

def Service.cancelURLTestSession (id now : ℕ) : Service :=
  if id ∈ s.urlTestSessions then s.drop id now "cancelled" "URL test session cancelled" else s

def Service.ofInstance (boxService id : ℕ) : Bool :=
  s.slots[id]?.any fun slot => slot.session.boxService = boxService

def Service.cancelURLTestSessionsForInstance (boxService : ℕ) (errorCode : String) (now : ℕ) : Service :=
  s.urlTestSessions.foldl
    (fun s id => if s.ofInstance boxService id then s.drop id now errorCode "runtime instance stopped" else s) s

def Service.finishURLTestSession (id now : ℕ) (order : List ℕ) : Option Service :=
  (s.slots[id]?).bind fun slot =>
    if slot.runner.stage = .remaining [] then
      ({ s with slots := s.slots.set id (slot.finish now) }.forget slot.session.groupTag id).prune order
    else none

end

inductive Step
  | start (boxService : ℕ) (manager : Manager) (request : Request) (now : ℕ) (order : List ℕ)
  | move (id : ℕ) (move : Move)
  | finish (id now : ℕ) (order : List ℕ)
  | cancel (id now : ℕ)
  | cancelForInstance (boxService : ℕ) (errorCode : String) (now : ℕ)

def step (s : Service) : Step → Option Service
  | .start boxService manager request now order => s.startURLTest boxService manager request now order
  | .move id move =>
    (s.slots[id]?).bind fun slot =>
      (slot.move (s.isCurrentURLTestSession id) move).map fun slot' => { s with slots := s.slots.set id slot' }
  | .finish id now order => s.finishURLTestSession id now order
  | .cancel id now => some (s.cancelURLTestSession id now)
  | .cancelForInstance boxService errorCode now => some (s.cancelURLTestSessionsForInstance boxService errorCode now)

end Hydracore.Daemon.URLTest
