import Hydracore.Parasite.Server.Table
import Mathlib.Data.List.Perm.Basic

/-!
One `Server` under any interleaving of its goroutines. A step is one critical
section of `sessionsMu`, or one interaction with a connection; what the
network, the random source, the session handler and the scheduler decide is
part of the action.
-/

namespace Hydracore.Parasite.Server

open Formats

inductive Stage
  | arrived
  | reading
  | entering (req : AuthRequest)
  | waiting (req : AuthRequest) (r : ℕ)
  | settingUp (req : AuthRequest) (r : ℕ)
  | discarding (r : ℕ)
  | refusing (reason : AuthReject)
  | acking (req : AuthRequest) (r : ℕ) (created : Bool)
  | attaching (req : AuthRequest) (r : ℕ) (created : Bool)
  | releasing (req : AuthRequest) (r : ℕ) (created served : Bool)
  | serving (req : AuthRequest) (r : ℕ) (created : Bool)
  | leaving (req : AuthRequest) (r : ℕ)
  | closing (r : ℕ)
  | done
deriving DecidableEq

structure Conn where
  stage : Stage
  dead : Bool
  slot : Bool
  ack : Option Bytes

inductive Reaper
  | idle
  | deleting (idleCutoff : ℤ) (stale : List ℕ)
  | closing (r : ℕ) (idleCutoff : ℤ) (stale : List ℕ)
deriving DecidableEq

inductive Shutdown
  | running
  | cancelled
  | closing (sessions : List ℕ)
deriving DecidableEq

structure State where
  table : Table
  conns : List Conn
  closers : List ℕ
  reaper : Reaper
  shutdown : Shutdown
  clock : ℤ

def State.initial (now : ℤ) : State := ⟨.empty, [], [], .idle, .running, now⟩

def State.ctxDone (s : State) : Bool := s.shutdown ≠ .running

inductive Incoming
  | lost
  | malformed
  | request (req : AuthRequest)
deriving DecidableEq

inductive ConnAction
  | take
  | read (incoming : Incoming)
  | enter (order : List SessionID) (generation : Option Generation)
  | join
  | cancelWait
  | setup (err : Option String)
  | discard
  | refuse
  | ack (written : Bool)
  | attach
  | release
  | leave
  | unattach
  | closeRelay
  | drop
deriving DecidableEq

inductive Action
  | accept
  | conn (h : ℕ) (a : ConnAction)
  | watch (h r : ℕ)
  | closeEvicted (i : ℕ)
  | tick (now : ℤ) (order : List SessionID)
  | reap
  | reapClose
  | cancel
  | clear (order : List SessionID)
  | shutdownClose
  | pass (d : ℕ)
deriving DecidableEq

def authorize (o : Options) (name password : Bytes) : Bool :=
  match o.users.lookup name with
  | none => false
  | some record => o.sha256 password = record.passwordHash

def refuseAuth (o : Options) : Incoming → Option AuthReject
  | .lost | .malformed => some .malformed
  | .request req =>
    if ¬ supportedWorkerCount req.workerTotal then some .workerCount
    else if req.workerTotal.toNat > o.maxWorkersPerSession then some .workerCount
    else if ¬ authorize o req.user req.password then some .credentials
    else none

def Conn.finish (c : Conn) : Conn := { c with stage := .done, slot := false }

def Conn.afterAttach (c : Conn) (req : AuthRequest) (r : ℕ) (created : Bool) : Conn :=
  if created then { c with stage := .leaving req r } else c.finish

/-- One step of the goroutine of connection `h`: its new state, the new table, the sessions it evicted. -/
def move (o : Options) (s : State) (h : ℕ) (c : Conn) : Stage → ConnAction → Option (Conn × Table × List ℕ)
  | .arrived, .take =>
    if s.conns.countP Conn.slot < o.maxPendingHandshakes then
      some ({ c with stage := .reading, slot := true }, s.table, [])
    else some ({ c with stage := .done, dead := true }, s.table, [])
  | .reading, .read .lost => some ({ c.finish with dead := true }, s.table, [])
  | .reading, .read .malformed => some ({ c with stage := .refusing .malformed }, s.table, [])
  | .reading, .read (.request req) =>
    match refuseAuth o (.request req) with
    | some reason => some ({ c with stage := .refusing reason }, s.table, [])
    | none => some ({ c with stage := .entering req }, s.table, [])
  | .entering req, .enter order generation =>
    if order.Perm s.table.sessions.keys then
      match s.table.enterSession o s.clock req order generation with
      | (t, evicted, .failed _) => some ({ c with stage := .refusing .session }, t, evicted)
      | (t, evicted, .joining r) => some ({ c with stage := .waiting req r }, t, evicted)
      | (t, evicted, .created r) => some ({ c with stage := .settingUp req r }, t, evicted)
    else none
  | .waiting req r, .join =>
    if (s.table.heap r).ready then
      match s.table.joinSession req r with
      | (t, some _) => some ({ c with stage := .refusing .session }, t, [])
      | (t, none) => some ({ c with stage := .acking req r false }, t, [])
    else none
  | .waiting _ _, .cancelWait =>
    if s.ctxDone then some ({ c with stage := .refusing .session }, s.table, []) else none
  | .settingUp req r, .setup err =>
    some ({ c with stage := if err.isSome then .discarding r else .acking req r true },
      s.table.finishSetup req r err, [])
  | .discarding r, .discard => some ({ c with stage := .refusing .session }, s.table.closeRelay r, [])
  | .refusing reason, .refuse =>
    some ({ c.finish with ack := some (encodeAuthAck false 0 reason.code), dead := true }, s.table, [])
  | .acking req r created, .ack true =>
    some ({ c with
      stage := .attaching req r created
      ack := some (encodeAuthAck true (s.table.heap r).generation AuthReject.unspecified.code) }, s.table, [])
  | .acking req r created, .ack false => some ({ c with stage := .releasing req r created false }, s.table, [])
  | .attaching req r created, .attach =>
    some ({ c with stage := .releasing req r created true }, s.table.attachPath r h, [])
  | .releasing req r created true, .release =>
    some ({ c with stage := .serving req r created, slot := false }, s.table.releaseSessionAttach r, [])
  | .releasing req r created false, .release =>
    some ({ c.afterAttach req r created with dead := true }, s.table.releaseSessionAttach r, [])
  | .serving req r created, .leave =>
    if c.dead ∨ s.ctxDone then some (c.afterAttach req r created, s.table, []) else none
  | .leaving req r, .unattach =>
    match s.table.deleteSessionIfUnattached req.sessionID r with
    | none => some (c.finish, s.table, [])
    | some t => some ({ c with stage := .closing r }, t, [])
  | .closing r, .closeRelay => some (c.finish, s.table.closeRelay r, [])
  | _, .drop => some ({ c with dead := true }, s.table, [])
  | _, _ => none

def step (o : Options) (s : State) : Action → Option State
  | .accept => some { s with conns := s.conns ++ [⟨.arrived, false, false, none⟩] }
  | .conn h a =>
    (s.conns[h]?).bind fun c => (move o s h c c.stage a).map fun (c', t, evicted) =>
      { s with conns := s.conns.set h c', table := t, closers := s.closers ++ evicted }
  | .watch h r =>
    if (s.conns[h]?).any Conn.dead ∧ h ∈ (s.table.heap r).relay.paths then
      some { s with table := s.table.removePath r h }
    else none
  | .closeEvicted i =>
    (s.closers[i]?).map fun r => { s with table := s.table.closeRelay r, closers := s.closers.eraseIdx i }
  | .tick now order =>
    if s.reaper = .idle ∧ now ≤ s.clock ∧ order.Perm s.table.sessions.keys then
      let idleCutoff := now - o.sessionIdleTimeout
      some { s with reaper := .deleting idleCutoff (s.table.staleSessions idleCutoff order) }
    else none
  | .reap =>
    match s.reaper with
    | .deleting _ [] => some { s with reaper := .idle }
    | .deleting idleCutoff (r :: stale) =>
      match s.table.deleteIdleSession (s.table.heap r).id r idleCutoff with
      | none => some { s with reaper := .deleting idleCutoff stale }
      | some t => some { s with table := t, reaper := .closing r idleCutoff stale }
    | _ => none
  | .reapClose =>
    match s.reaper with
    | .closing r idleCutoff stale =>
      some { s with table := s.table.closeRelay r, reaper := .deleting idleCutoff stale }
    | _ => none
  | .cancel => if s.shutdown = .running then some { s with shutdown := .cancelled } else none
  | .clear order =>
    if s.shutdown = .cancelled ∧ order.Perm s.table.sessions.keys then
      some { s with
        table := s.table.clear
        shutdown := .closing (order.filterMap (fun id => s.table.sessions.lookup id)) }
    else none
  | .shutdownClose =>
    match s.shutdown with
    | .closing (r :: rest) => some { s with table := s.table.closeRelay r, shutdown := .closing rest }
    | _ => none
  | .pass d => some { s with clock := s.clock + d }

end Hydracore.Parasite.Server
