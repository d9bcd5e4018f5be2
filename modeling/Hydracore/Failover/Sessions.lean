import Hydracore.Common.Kmutex

/-!
The locks of the failover inbound: `connHandler`, the close of a session's connection and `RestoreConn`.

The maps behind `Inbound.mtx` are changed in one step each, as nothing blocks while it is held.
-/

namespace Hydracore.Failover

open Common

def commandTCP : UInt8 := 1

def commandReconnect : UInt8 := 2

structure RWMutex where
  readers : ℕ
  waiting : ℕ
  writing : Bool

/-- A `failoverConn` of the server, with the session its close handler is for and whether `Close` has been called. -/
structure Conn (σ : Type) where
  session : σ
  mtx : RWMutex
  once : Bool

inductive Task (σ : Type) where
  | received (command : UInt8) (session : σ)
  | locking (command : UInt8) (session : σ)
  | serving (command : UInt8) (session : σ)
  | found (session : σ) (conn : ℕ)
  | restoring (session : σ) (conn : ℕ)
  | awaiting (session : σ) (conn : ℕ)
  | exchanging (session : σ) (conn : ℕ)
  | releasing (session : σ)
  | closing (session : σ) (conn : ℕ)
  | entering (session : σ) (conn : ℕ)
  | joining (session : σ) (conn : ℕ)
  | deleting (session : σ) (conn : ℕ)
  | leaving (conn : ℕ)
  | requesting (conn : ℕ)
  | busy (conn : ℕ)
  | returned

namespace Task

variable {σ : Type}

def held : Task σ → Option σ
  | serving _ session | found session _ | restoring session _ | awaiting session _ | exchanging session _
  | releasing session | deleting session _ => some session
  | _ => none

def wanted : Task σ → Option σ
  | locking _ session | joining session _ => some session
  | _ => none

def heldMtx : Task σ → Option ℕ
  | exchanging _ conn | entering _ conn | joining _ conn | deleting _ conn | leaving conn | busy conn => some conn
  | _ => none

def wantedMtx : Task σ → Option ℕ
  | awaiting _ conn | closing _ conn | requesting conn => some conn
  | _ => none

end Task

structure Inbound (σ : Type) where
  sessionMtx : Kmutex σ
  conns : σ → Option ℕ
  heap : List (Conn σ)
  tasks : List (Task σ)

/-- `ok` is whether a write on the new connection succeeds, where the task makes one. -/
inductive Step (σ : Type) where
  | accept (command : UInt8) (session : σ)
  | close (conn : ℕ)
  | use (conn : ℕ)
  | advance (task : ℕ) (ok : Bool)

namespace RWMutex

section

variable (m : RWMutex)

def rLock : Option RWMutex :=
  if m.writing || m.waiting ≠ 0 then none else some { m with readers := m.readers + 1 }

def rUnlock : RWMutex := { m with readers := m.readers - 1 }

def await : RWMutex := { m with waiting := m.waiting + 1 }

def lock : Option RWMutex :=
  if m.writing || m.readers ≠ 0 then none else some { m with waiting := m.waiting - 1, writing := true }

def unlock : RWMutex := { m with writing := false }

end

end RWMutex

namespace Inbound

variable {σ : Type} [DecidableEq σ]

def start : Inbound σ := ⟨.new, fun _ => none, [], []⟩

section

variable (h : Inbound σ)
include h

def withMtx (conn : ℕ) (f : RWMutex → Option RWMutex) (next : Task σ) : Option (Inbound σ × Task σ) :=
  h.heap[conn]?.bind fun c => (f c.mtx).map fun mtx =>
    ({ h with heap := h.heap.set conn { c with mtx := mtx } }, next)

def lockSession (session : σ) (taken waits : Task σ) : Inbound σ × Task σ :=
  ({ h with sessionMtx := h.sessionMtx.lock session }, if (h.sessionMtx session).isNone then taken else waits)

def wakeSession (session : σ) (next : Task σ) : Option (Inbound σ × Task σ) :=
  (h.sessionMtx.wake session).map fun km => ({ h with sessionMtx := km }, next)

def unlockSession (session : σ) (next : Task σ) : Option (Inbound σ × Task σ) :=
  (h.sessionMtx.unlock session).map fun km => ({ h with sessionMtx := km }, next)

def serve (command : UInt8) (session : σ) : Inbound σ × Task σ :=
  if command = commandTCP then
    ({ h with
      heap := h.heap ++ [⟨session, ⟨0, 0, false⟩, false⟩]
      conns := Function.update h.conns session (some h.heap.length) }, .releasing session)
  else if command = commandReconnect then
    match h.conns session with
    | none => (h, .releasing session)
    | some conn => (h, .found session conn)
  else (h, .returned)

def advance (ok : Bool) : Task σ → Option (Inbound σ × Task σ)
  | .received command session => some (h.lockSession session (.serving command session) (.locking command session))
  | .locking command session => h.wakeSession session (.serving command session)
  | .serving command session => some (h.serve command session)
  | .found session conn => some (h, if ok then .restoring session conn else .returned)
  | .restoring session conn => h.withMtx conn (fun m => some m.await) (.awaiting session conn)
  | .awaiting session conn => h.withMtx conn RWMutex.lock (.exchanging session conn)
  | .exchanging session conn => h.withMtx conn (fun m => some m.unlock) (.releasing session)
  | .releasing session => h.unlockSession session .returned
  | .closing session conn => h.withMtx conn RWMutex.rLock (.entering session conn)
  | .entering session conn => some (h.lockSession session (.deleting session conn) (.joining session conn))
  | .joining session conn => h.wakeSession session (.deleting session conn)
  | .deleting session conn =>
    { h with conns := Function.update h.conns session none }.unlockSession session (.leaving conn)
  | .leaving conn => h.withMtx conn (fun m => some m.rUnlock) (.requesting conn)
  | .requesting conn => h.withMtx conn RWMutex.rLock (.busy conn)
  | .busy conn => h.withMtx conn (fun m => some m.rUnlock) .returned
  | .returned => none

def step : Step σ → Option (Inbound σ)
  | .accept command session => some { h with tasks := h.tasks ++ [.received command session] }
  | .close conn => h.heap[conn]?.bind fun c =>
    if c.once then none
    else some { h with
      heap := h.heap.set conn { c with once := true }
      tasks := h.tasks ++ [.closing c.session conn] }
  | .use conn => if conn < h.heap.length then some { h with tasks := h.tasks ++ [.requesting conn] } else none
  | .advance i ok => h.tasks[i]?.bind fun task => (h.advance ok task).map fun moved =>
    { moved.1 with tasks := moved.1.tasks.set i moved.2 }

end

end Inbound

end Hydracore.Failover
