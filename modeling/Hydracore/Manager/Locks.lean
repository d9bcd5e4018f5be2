import Hydracore.Systems.Dicts
import Hydracore.Systems.Runs

/-!
The distributed connection locks of the manager: `AcquireLock`, `RefreshLock`, `ReleaseLock`, the expiry of handles and
`UpdateConnectionLimiter`.

Each call holds `connLockMtx` and is one step. The caches, and the callbacks they make when an item is evicted, run on
their own: a callback waits for the mutex after the cache has dropped the item.
-/

namespace Hydracore.Manager

open Systems

inductive LockType where
  | manager
  | default
  | none
  deriving DecidableEq

structure ConnectionLimiter where
  count : UInt32
  lockType : LockType

structure Lock (ι : Type) where
  limiter : ℤ
  table : ℕ
  id : ι
  items : List (ℕ × ℕ)

/-- `tables` and `locks` have every map and every cache made so far. `callbacks` are the evictions whose callback has not
run, `deletes` the calls of `Delete` that `ReleaseLock` has started, and `dropping` is the limiter whose map an
`UpdateConnectionLimiter` is about to delete. -/
structure Service (ι : Type) where
  now : ℕ
  limiters : ℤ → Option ConnectionLimiter
  limiterLocks : ℤ → Option ℕ
  tables : List (Dict ι ℕ)
  locks : List (Lock ι)
  callbacks : List ℕ
  deletes : List (ℕ × ℕ)
  dropping : Option ℤ
  handles : ℕ

inductive AcquireError where
  | repository
  | invalidLockType
  | notEnoughFreeLocks
  | uuid
  deriving DecidableEq

inductive LockError where
  | limiterNotFound
  | lockNotFound
  | itemNotFound

/-- `acquire` says whether a UUID can be made. `collect` is the clean-up of a cache, `evicted` a callback, `released` the
`Delete` of a handle. -/
inductive Step (ι : Type) where
  | acquire (limiter : ℤ) (id : ι) (uuid : Bool)
  | refresh (limiter : ℤ) (id : ι) (handle : ℕ)
  | release (limiter : ℤ) (id : ι) (handle : ℕ)
  | released (i : ℕ)
  | collect (k : ℕ)
  | evicted (i : ℕ)
  | tick (n : ℕ)
  | update (limiter : ℤ) (row : ConnectionLimiter) (nodes : Bool)
  | drop

def lifetime : ℕ := 30 * 1000000000

namespace Lock

variable {ι : Type}

def live (now : ℕ) (lock : Lock ι) : Bool := lock.items.any fun item => now ≤ item.2

def replace (now : ℕ) (lock : Lock ι) (handle : ℕ) : Option (Lock ι) :=
  if lock.items.any fun item => item.1 = handle ∧ now ≤ item.2 then
    some { lock with items := lock.items.map fun item => if item.1 = handle then (handle, now + lifetime) else item }
  else none

end Lock

namespace Service

variable {ι : Type} [DecidableEq ι]

def start (limiters : ℤ → Option ConnectionLimiter) : Service ι := ⟨0, limiters, fun _ => none, [], [], [], [], none, 0⟩

section

variable (s : Service ι)

def tableAt (t : ℕ) : Dict ι ℕ := s.tables.getD t ∅

def table (limiter : ℤ) : Option (Dict ι ℕ) := (s.limiterLocks limiter).map s.tableAt

def ensureTable (limiter : ℤ) : Service ι × ℕ :=
  match s.limiterLocks limiter with
  | some t => (s, t)
  | none =>
    ({ s with
      tables := s.tables ++ [∅]
      limiterLocks := Function.update s.limiterLocks limiter (some s.tables.length) }, s.tables.length)

def newLock (limiter : ℤ) (t : ℕ) (id : ι) : Service ι :=
  { s with
    tables := s.tables.modify t fun table => table.insert id s.locks.length
    locks := s.locks ++ [⟨limiter, t, id, []⟩] }

def handOut (k : ℕ) (uuid : Bool) : Service ι × Except AcquireError ℕ :=
  if uuid then
    ({ s with
      locks := s.locks.modify k fun lock => { lock with items := lock.items ++ [(s.handles, s.now + lifetime)] }
      handles := s.handles + 1 }, .ok s.handles)
  else (s, .error .uuid)

section

variable (limiterId : ℤ)

def acquireLock (id : ι) (uuid : Bool) : Service ι × Except AcquireError ℕ :=
  match s.limiters limiterId with
  | none => (s, .error .repository)
  | some limiter =>
    if limiter.lockType ≠ .manager then (s, .error .invalidLockType)
    else
      let (s, t) := s.ensureTable limiterId
      let locks := s.tableAt t
      match locks.lookup id with
      | some k => s.handOut k uuid
      | none =>
        if Dict.size locks = limiter.count.toNat then (s, .error .notEnoughFreeLocks)
        else (s.newLock limiterId t id).handOut s.locks.length uuid

def findLock (id : ι) : Except LockError ℕ :=
  match s.table limiterId with
  | none => .error .limiterNotFound
  | some locks =>
    match locks.lookup id with
    | none => .error .lockNotFound
    | some k => .ok k

def refreshLock (id : ι) (handle : ℕ) : Service ι × Except LockError Unit :=
  match s.findLock limiterId id with
  | .error err => (s, .error err)
  | .ok k =>
    match s.locks[k]?.bind fun lock => lock.replace s.now handle with
    | none => (s, .error .itemNotFound)
    | some lock => ({ s with locks := s.locks.set k lock }, .ok ())

def releaseLock (id : ι) (handle : ℕ) : Service ι × Except LockError Unit :=
  match s.findLock limiterId id with
  | .error err => (s, .error err)
  | .ok k => ({ s with deletes := s.deletes ++ [(k, handle)] }, .ok ())

end

def evict (k : ℕ) (gone : ℕ × ℕ → Bool) : Option (Service ι) :=
  s.locks[k]?.map fun lock =>
    { s with
      locks := s.locks.set k { lock with items := lock.items.filter fun item => !gone item }
      callbacks := s.callbacks ++ (lock.items.filter gone).map fun _ => k }

def onEvicted (lock : Lock ι) : Service ι :=
  if lock.items.isEmpty then { s with tables := s.tables.modify lock.table fun table => table.erase lock.id } else s

def step : Step ι → Option (Service ι)
  | .acquire limiter id uuid => some (s.acquireLock limiter id uuid).1
  | .refresh limiter id handle => some (s.refreshLock limiter id handle).1
  | .release limiter id handle => some (s.releaseLock limiter id handle).1
  | .released i => s.deletes[i]?.bind fun call =>
    { s with deletes := s.deletes.eraseIdx i }.evict call.1 fun item => item.1 = call.2
  | .collect k => s.evict k fun item => item.2 < s.now
  | .evicted i => s.callbacks[i]?.bind fun k => s.locks[k]?.map fun lock =>
    { s with callbacks := s.callbacks.eraseIdx i }.onEvicted lock
  | .tick n => some { s with now := s.now + n }
  -- without the nodes of the limiter its map is kept
  | .update limiter row nodes =>
    if s.dropping.isSome ∨ (s.limiters limiter).isNone then none
    else some { s with
      limiters := Function.update s.limiters limiter (some row)
      dropping := if row.lockType ≠ .manager ∧ nodes then some limiter else none }
  | .drop => s.dropping.map fun limiter =>
    { s with limiterLocks := Function.update s.limiterLocks limiter none, dropping := none }

def liveIds (limiter : ℤ) : List ι :=
  ((s.locks.filter fun lock => lock.limiter = limiter && lock.live s.now).map Lock.id).dedup

end

end Service

end Hydracore.Manager
