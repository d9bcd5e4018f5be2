import Hydracore.Parasite.Datagram.Frame
import Hydracore.Systems.Dicts
import Hydracore.Systems.Runs

/-!
The `datagramRouter` under concurrent calls. A step is one critical section of
`mu` or one access to an atomic; a call runs its first section when it is made.
-/

namespace Hydracore.Parasite.Router

open Formats Systems Datagram

variable {Addr : Type}

/-- `closed` of the receiver is the channel of the association; `torn` says that its `closeOnce` is over. -/
structure Association (Addr : Type) where
  id : UInt64
  conn : ℕ
  destination : Addr
  receiver : Receiver
  torn : Bool

def newDatagramAssociation (id : UInt64) (conn : ℕ) (dest : Addr) : Association Addr :=
  ⟨id, conn, dest, .new, false⟩

namespace Association

def deliverFragment (now : ℤ) (frame : Frame Addr) (a : Association Addr) : Association Addr :=
  { a with receiver := (a.receiver.deliverFragment now frame).1 }

def closeChannel (a : Association Addr) : Association Addr := { a with receiver := { a.receiver with closed := true } }

def clearPending (a : Association Addr) : Association Addr :=
  { a with receiver := { a.receiver with pending := [] }, torn := true }

end Association

structure Shared (Addr : Type) where
  heap : List (Association Addr)
  associations : Dict UInt64 ℕ
  nextID : UInt64
  closed : Bool
  onAccept : Bool

inductive Call (Addr : Type)
  | opening (id : UInt64) (conn : ℕ) (dest : Addr)
  | accepting (frame : Frame Addr) (conn : ℕ)
  | locking (frame : Frame Addr) (conn : ℕ)
  | delivering (frame : Frame Addr) (ref : ℕ)
  | shutting
  | closing (doomed : List ℕ)
  | removing (ref : ℕ) (doomed : List ℕ)
  | clearing (ref : ℕ) (doomed : List ℕ)
  | returned

namespace Shared

section

variable (s : Shared Addr)

def register (a : Association Addr) : Shared Addr :=
  { s with heap := s.heap ++ [a], associations := s.associations.insert a.id s.heap.length }

def newAssociation (id : UInt64) (conn : ℕ) (dest : Addr) : Shared Addr :=
  let assoc := newDatagramAssociation id conn dest
  if s.closed then { s with heap := s.heap ++ [assoc] } else s.register assoc

def acceptAssociation (frame : Frame Addr) (conn : ℕ) : Shared Addr × Call Addr :=
  if s.closed then (s, .returned)
  else
    match s.associations.lookup frame.associationID with
    | some existing => (s, .delivering frame existing)
    | none =>
      (s.register (newDatagramAssociation frame.associationID conn frame.destination),
        .delivering frame s.heap.length)

def removeAssociation (id : UInt64) : Shared Addr :=
  { s with associations := s.associations.erase id }

def modify (ref : ℕ) (f : Association Addr → Association Addr) : Shared Addr :=
  { s with heap := s.heap.modify ref f }

end

def dooms (conn : ℕ) : Shared Addr × List ℕ → UInt64 → Shared Addr × List ℕ
  | (s, doomed), id =>
    match s.associations.lookup id with
    | some ref =>
      if (s.heap[ref]?).any (fun a => a.conn = conn) then (s.removeAssociation id, doomed ++ [ref]) else (s, doomed)
    | none => (s, doomed)

def closeConn (s : Shared Addr) (conn : ℕ) (order : List UInt64) : Shared Addr × List ℕ :=
  order.foldl (dooms conn) (s, [])

def enterClose (s : Shared Addr) (ref : ℕ) (doomed : List ℕ) : Option (Shared Addr × Call Addr) :=
  (s.heap[ref]?).bind fun a =>
    if a.receiver.closed then if a.torn then some (s, .closing doomed) else none
    else some (s.modify ref .closeChannel, .removing ref doomed)

end Shared

def proceed (valid : Addr → Bool) (s : Shared Addr) : Call Addr → Option (Shared Addr × Call Addr)
  | .opening id conn dest => some (s.newAssociation id conn dest, .returned)
  | .accepting frame conn =>
    some (s, if s.onAccept && valid frame.destination then .locking frame conn else .returned)
  | .locking frame conn => some (s.acceptAssociation frame conn)
  | .closing [] => some (s, .returned)
  | .closing (ref :: doomed) => s.enterClose ref doomed
  | .removing ref doomed => (s.heap[ref]?).map fun a => (s.removeAssociation a.id, .clearing ref doomed)
  | .clearing ref doomed => some (s.modify ref .clearPending, .closing doomed)
  | _ => none

structure State (Addr : Type) where
  shared : Shared Addr
  calls : List (Call Addr)

def State.initial : State Addr := ⟨⟨[], ∅, 0, false, false⟩, []⟩

inductive Action (Addr : Type)
  | setAcceptHandler
  | newAssociation (conn : ℕ) (dest : Addr)
  | routeReceivedDatagram (raw : Bytes) (conn : ℕ)
  | closeAssociation (ref : ℕ)
  | closeConn (conn : ℕ) (order : List UInt64)
  | close
  | proceed (call : ℕ)
  | deliver (call : ℕ) (now : ℤ)
  | shut (call : ℕ) (order : List UInt64)

def step (S : AddrSerializer Addr) (valid : Addr → Bool) (s : State Addr) : Action Addr → Option (State Addr)
  | .setAcceptHandler => some { s with shared.onAccept := true }
  | .newAssociation conn dest =>
    let id := s.shared.nextID + 1
    some ⟨{ s.shared with nextID := id }, s.calls ++ [.opening id conn dest]⟩
  | .routeReceivedDatagram raw conn =>
    match parseDatagramFrame S raw with
    | none => some s
    | some frame =>
      match s.shared.associations.lookup frame.associationID with
      | some ref => some { s with calls := s.calls ++ [.delivering frame ref] }
      | none => some { s with calls := s.calls ++ [.accepting frame conn] }
  | .closeAssociation ref =>
    (s.shared.enterClose ref []).map fun (shared, call) => ⟨shared, s.calls ++ [call]⟩
  | .closeConn conn order =>
    if order.Perm s.shared.associations.keys then
      let (shared, doomed) := s.shared.closeConn conn order
      some ⟨shared, s.calls ++ [.closing doomed]⟩
    else none
  | .close => some ⟨{ s.shared with closed := true }, s.calls ++ [.shutting]⟩
  | .proceed i =>
    (s.calls[i]?).bind fun call =>
      (proceed valid s.shared call).map fun (shared, call) => ⟨shared, s.calls.set i call⟩
  | .deliver i now =>
    match s.calls[i]? with
    | some (.delivering frame ref) =>
      some ⟨s.shared.modify ref (.deliverFragment now frame), s.calls.set i .returned⟩
    | _ => none
  | .shut i order =>
    match s.calls[i]? with
    | some .shutting =>
      if order.Perm s.shared.associations.keys then
        some ⟨{ s.shared with associations := ∅ },
          s.calls.set i (.closing (order.filterMap (s.shared.associations.lookup ·)))⟩
      else none
    | _ => none

end Hydracore.Parasite.Router
