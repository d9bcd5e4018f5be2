import Hydracore.Systems.Runs
import Hydracore.Systems.Tasks

/-!
A client-side `QUICRelay` under any interleaving of its goroutines. Generation
contexts are numbered in the order in which `RebindNetwork` makes them; all but
the current one are cancelled. Dial results, timers and the death of a
connection are part of the action.
-/

namespace Hydracore.Parasite.Relay

/-- A `quicPathConn`: the context its dial began under, whether its connection is done, and
whether it was the relay that closed it. -/
structure Path where
  id : UInt16
  ctx : ℕ
  done : Bool
  closed : Bool

/-- What the goroutines share; `terminated` records the workers whose dial has failed terminally. -/
structure Shared where
  heap : List Path
  paths : List ℕ
  generationCtx : ℕ
  appliedNetworkGeneration : UInt64
  closed : Bool
  cancelled : Bool
  parentDone : Bool
  terminated : List UInt16

namespace Shared

section

variable (s : Shared)

def ctxDone : Bool := s.cancelled || s.parentDone

def ctxErr (ctx : ℕ) : Bool := ctx ≠ s.generationCtx || s.ctxDone

def activePaths : ℕ := s.paths.length

def opened (id : UInt16) (ctx : ℕ) : Shared :=
  { s with heap := s.heap ++ [⟨id, ctx, false, false⟩] }

def closeConn (p : ℕ) : Shared :=
  { s with heap := s.heap.modify p fun path => { path with done := true, closed := true } }

def failed (id : UInt16) : Shared := { s with terminated := id :: s.terminated }

def refuses (ctx : ℕ) : Bool := s.closed || ctx ≠ s.generationCtx || s.ctxErr ctx

def appendPath (p : ℕ) : Shared := { s with paths := s.paths ++ [p] }

def removePath (p : ℕ) : Shared := { s with paths := s.paths.erase p }

end

end Shared

/-- Where a goroutine of a worker stands: `initPath`, `reconnectPath`, the end of `addCurrentPath`
that both share, or `watchPath`. Times are in milliseconds. -/
inductive Pc
  | initCheck
  | initContext
  | initDial (ctx : ℕ)
  | initOffer (path ctx : ℕ)
  | initReject (path : ℕ)
  | check (backoff : ℕ)
  | context (backoff : ℕ)
  | dial (ctx backoff : ℕ)
  | offer (path ctx backoff : ℕ)
  | reject (path backoff : ℕ)
  | sleep (ctx backoff : ℕ)
  | start (path : ℕ)
  | watch (path : ℕ)
  | remove (path : ℕ)
  | retire (path : ℕ)
  | done
deriving DecidableEq

inductive TaskAction
  | go
  | dialed
  | dialFailed (terminal : Bool)
  | timer
  | interrupted
deriving DecidableEq

def initialBackoff : ℕ := 500

def maximumBackoff : ℕ := 5000

/-- One step of a goroutine of worker `id`: the shared state, where it stands then, and the
goroutine of the same worker that it spawns. -/
def proceed (s : Shared) (id : UInt16) : Pc → TaskAction → Option (Shared × Pc × Option Pc)
  | .initCheck, .go => some (s, if s.closed then .done else .initContext, none)
  | .initContext, .go => some (s, .initDial s.generationCtx, none)
  | .initDial ctx, .dialed => some (s.opened id ctx, .initOffer s.heap.length ctx, none)
  | .initDial _, .dialFailed true => some (s.failed id, .done, none)
  | .initDial _, .dialFailed false => some (s, .done, some (.check initialBackoff))
  | .initOffer p ctx, .go =>
    some (if s.refuses ctx then (s, .initReject p, none) else (s.appendPath p, .start p, none))
  | .initReject p, .go => some (s.closeConn p, .done, some (.check initialBackoff))
  | .check backoff, .go => some (s, if s.closed || s.ctxDone then .done else .context backoff, none)
  | .context backoff, .go => some (s, .dial s.generationCtx backoff, none)
  | .dial ctx backoff, .dialed => some (s.opened id ctx, .offer s.heap.length ctx backoff, none)
  | .dial _ _, .dialFailed true => some (s.failed id, .done, none)
  | .dial ctx backoff, .dialFailed false => some (s, .sleep ctx backoff, none)
  | .offer p ctx backoff, .go =>
    some (if s.refuses ctx then (s, .reject p backoff, none) else (s.appendPath p, .start p, none))
  | .reject p backoff, .go => some (s.closeConn p, .check backoff, none)
  | .sleep _ backoff, .timer =>
    some (s, .check (if backoff < maximumBackoff then backoff * 2 else backoff), none)
  | .sleep ctx _, .interrupted => if s.ctxErr ctx then some (s, .check initialBackoff, none) else none
  | .start p, .go => some (s, .done, some (.watch p))
  | .watch p, .go => if (s.heap[p]?).any Path.done then some (s, .remove p, none) else none
  | .remove p, .go => some (s.removePath p, .retire p, none)
  | .retire _, .go => some (s, .done, if s.closed then none else some (.check initialBackoff))
  | _, _ => none

structure Task where
  id : UInt16
  pc : Pc

inductive RebindPc
  | loading
  | swapping (applied : UInt64)
  | locking
  | closing (paths : List ℕ)
  | returned
deriving DecidableEq

structure Rebind where
  gen : UInt64
  pc : RebindPc
deriving DecidableEq

def rebindNetwork (s : Shared) (gen : UInt64) : RebindPc → Option (Shared × RebindPc)
  | .loading =>
    some (s, if gen ≤ s.appliedNetworkGeneration then .returned else .swapping s.appliedNetworkGeneration)
  | .swapping applied =>
    some (if s.appliedNetworkGeneration = applied then ({ s with appliedNetworkGeneration := gen }, .locking)
      else (s, .loading))
  | .locking => some ({ s with generationCtx := s.generationCtx + 1 }, .closing s.paths)
  | .closing (p :: rest) => some (s.closeConn p, .closing rest)
  | .closing [] => some (s, .returned)
  | .returned => none

inductive Closing
  | waiting
  | stored
  | cancelled
  | finished

def close (s : Shared) : Closing → Option (Shared × Closing)
  | .waiting => some ({ s with closed := true }, .stored)
  | .stored => some ({ s with cancelled := true }, .cancelled)
  | .cancelled => some ({ s.paths.foldl Shared.closeConn s with paths := [] }, .finished)
  | .finished => none

structure State where
  shared : Shared
  launched : ℕ
  tasks : List Task
  rebinds : List Rebind
  closing : Closing

def State.initial : State := ⟨⟨[], [], 0, 0, false, false, false, []⟩, 0, [], [], .waiting⟩

inductive Action
  | launch
  | task (i : ℕ) (a : TaskAction)
  | rebind (gen : UInt64)
  | rebindStep (i : ℕ)
  | close
  | die (p : ℕ)
  | parentCancel

def step (pathCount : ℕ) (s : State) : Action → Option State
  | .launch =>
    if s.launched < pathCount then
      some { s with launched := s.launched + 1, tasks := s.tasks ++ [⟨UInt16.ofNat s.launched, .initCheck⟩] }
    else none
  | .task i a =>
    (s.tasks[i]?).bind fun t => (proceed s.shared t.id t.pc a).map fun (shared, pc, spawned) =>
      { s with
        shared := shared
        tasks := s.tasks.set i { t with pc := pc } ++ (spawned.map (Task.mk t.id)).toList }
  | .rebind gen => some { s with rebinds := s.rebinds ++ [⟨gen, if gen = 0 then .locking else .loading⟩] }
  | .rebindStep i =>
    (s.rebinds[i]?).bind fun r => (rebindNetwork s.shared r.gen r.pc).map fun (shared, pc) =>
      { s with shared := shared, rebinds := s.rebinds.set i { r with pc := pc } }
  | .close => (close s.shared s.closing).map fun (shared, pc) => { s with shared := shared, closing := pc }
  | .die p =>
    some { s with shared := { s.shared with
      heap := s.shared.heap.modify p fun path => { path with done := true } } }
  | .parentCancel => some { s with shared := { s.shared with parentDone := true } }

end Hydracore.Parasite.Relay
