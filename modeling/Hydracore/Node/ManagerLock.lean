import Hydracore.Systems.Runs

/-!
The manager locks of a node's connection limiter: `newManagerLock`, the strategy that hands its locks on,
`ManagerConnectionStrategy`, and the connections of the outbound with the goroutines that close them.
-/

namespace Hydracore.Node

inductive Refresher where
  | waiting
  | calling
  | stopped
  deriving DecidableEq

/-- `getter` is the call of `newManagerLock` whose map the lock is in, `cancelled` the state of `ctx`. `failed` says that
a `RefreshLock` of the handle has failed. -/
structure ManagerLock (ι : Type) where
  getter : ℕ
  id : ι
  handleId : ℕ
  cancelled : Bool
  handles : UInt32
  refresher : Refresher
  failed : Bool

/-- Where a connection is, with its lock once it has one. A connection that is `locked` has yet to be registered, one that
is `admitted` may still be dialed. -/
inductive Phase where
  | entered
  | chosen (getter : ℕ)
  | refused
  | locked (k : ℕ)
  | admitted (k : ℕ)
  | closing (k : ℕ)
  | closed (k : ℕ)
  deriving DecidableEq

/-- `cancelled` is the state of the context that `connChecker` waits for. `late` says that the lock had already failed when
the connection got it. -/
structure Connection (ι : Type) where
  user : String
  id : ι
  phase : Phase
  cancelled : Bool
  late : Bool

/-- `cancels` are pairs of a user and a connection, `revoking` the connections `UpdateStrategies` has yet to cancel. -/
structure Limiter (ι : Type) where
  strategies : String → Option ℕ
  cancels : List (String × ℕ)
  revoking : List ℕ
  conns : ℕ × ι → Option ℕ
  locks : List (ManagerLock ι)
  connections : List (Connection ι)

/-- `lock` has the answer of `AcquireLock`, should it be asked. `close` is a call of `Close` or a failed dial, `check` the
`connChecker` of the connection. -/
inductive Act where
  | choose
  | lock (answer : Option ℕ)
  | register
  | close
  | check
  | release

inductive LockAct where
  | refresh
  | refreshed (ok : Bool)
  | stop

inductive Step (ι : Type) where
  | enter (user : String) (id : ι)
  | act (i : ℕ) (a : Act)
  | lock (k : ℕ) (a : LockAct)
  | updateStrategies (strategies : String → Option ℕ)
  | revoke

def Phase.holds : Phase → Option ℕ
  | locked k | admitted k | closing k => some k
  | _ => none

def Phase.lock : Phase → Option ℕ
  | locked k | admitted k | closing k | closed k => some k
  | _ => none

def Connection.holds {ι : Type} (k : ℕ) (c : Connection ι) : Bool := c.phase.holds = some k

def ManagerLock.act {ι : Type} (lock : ManagerLock ι) : LockAct → Option (ManagerLock ι)
  | .refresh => if lock.refresher = .waiting then some { lock with refresher := .calling } else none
  | .refreshed ok =>
    if lock.refresher ≠ .calling then none
    else if ok then some { lock with refresher := .waiting }
    else some { lock with refresher := .stopped, cancelled := true, failed := true }
  | .stop => if lock.refresher = .waiting ∧ lock.cancelled then some { lock with refresher := .stopped } else none

namespace Limiter

variable {ι : Type} [DecidableEq ι]

def start : Limiter ι := ⟨fun _ => none, [], [], fun _ => none, [], []⟩

section

variable (s : Limiter ι)

def move (i : ℕ) (c : Connection ι) (phase : Phase) : Limiter ι :=
  { s with connections := s.connections.set i { c with phase := phase } }

def getLock (i : ℕ) (c : Connection ι) (getter : ℕ) (answer : Option ℕ) : Limiter ι :=
  match s.conns (getter, c.id) with
  | some k =>
    { s with
      locks := s.locks.modify k fun lock => { lock with handles := lock.handles + 1 }
      connections := s.connections.set i { c with phase := .locked k, late := (s.locks[k]?).any (·.failed) } }
  | none =>
    match answer with
    | none => s.move i c .refused
    | some handleId =>
      { s with
        conns := Function.update s.conns (getter, c.id) (some s.locks.length)
        locks := s.locks ++ [⟨getter, c.id, handleId, false, 1, .waiting, false⟩]
        connections := s.connections.set i { c with phase := .locked s.locks.length } }

def putLock (i : ℕ) (c : Connection ι) (k : ℕ) (lock : ManagerLock ι) : Limiter ι :=
  let s := s.move i c (.closed k)
  if lock.handles - 1 = 0 then
    { s with
      locks := s.locks.set k { lock with handles := lock.handles - 1, cancelled := true }
      conns := Function.update s.conns (lock.getter, lock.id) none }
  else { s with locks := s.locks.set k { lock with handles := lock.handles - 1 } }

def beginClose (i : ℕ) (c : Connection ι) (k : ℕ) : Limiter ι :=
  { s with
    cancels := s.cancels.erase (c.user, i)
    connections := s.connections.set i { c with phase := .closing k, cancelled := true } }

def act (i : ℕ) (c : Connection ι) : Act → Option (Limiter ι)
  | .choose =>
    match c.phase with
    | .entered =>
      match s.strategies c.user with
      | none => some (s.move i c .refused)
      | some getter => some (s.move i c (.chosen getter))
    | _ => none
  | .lock answer =>
    match c.phase with
    | .chosen getter => some (s.getLock i c getter answer)
    | _ => none
  | .register =>
    match c.phase with
    | .locked k => some { s.move i c (.admitted k) with cancels := s.cancels ++ [(c.user, i)] }
    | _ => none
  | .close =>
    match c.phase with
    | .admitted k => some (s.beginClose i c k)
    | _ => none
  | .check =>
    match c.phase with
    | .admitted k => if c.cancelled then some (s.beginClose i c k) else none
    | _ => none
  | .release =>
    match c.phase with
    | .closing k => s.locks[k]?.map (s.putLock i c k)
    | _ => none

def step : Step ι → Option (Limiter ι)
  | .enter user id => some { s with connections := s.connections ++ [⟨user, id, .entered, false, false⟩] }
  | .act i a => s.connections[i]?.bind fun c => s.act i c a
  | .lock k a => s.locks[k]?.bind fun lock => (lock.act a).map fun lock' => { s with locks := s.locks.set k lock' }
  | .updateStrategies strategies =>
    some { s with
      strategies := strategies
      cancels := s.cancels.filter fun entry => (strategies entry.1).isSome
      revoking := s.revoking ++ (s.cancels.filter fun entry => (strategies entry.1).isNone).map Prod.snd }
  | .revoke =>
    match s.revoking with
    | [] => none
    | i :: revoking => some { s with
        revoking := revoking
        connections := s.connections.modify i fun c => { c with cancelled := true } }

end

end Limiter

end Hydracore.Node
