import Hydracore.Parasite.Auth
import Hydracore.Systems.Dicts

/-!
The state behind `sessionsMu` and its critical sections. Sessions are heap
objects so that the identity comparisons of the source compare references.
-/

namespace Hydracore.Parasite.Server

open Formats Systems

structure User where
  passwordHash : Bytes
  maxSessions : ℕ

structure Options where
  users : Dict Bytes User
  maxSessions : ℕ
  maxWorkersPerSession : ℕ
  maxPendingHandshakes : ℕ
  sessionIdleTimeout : ℤ
  sha256 : Bytes → Bytes

def Options.userLimit (o : Options) (user : Bytes) : ℕ := (o.users.lookup user).elim 0 User.maxSessions

abbrev Generation := { g : UInt64 // g ≠ 0 }

structure SessionRelay where
  paths : List ℕ
  closed : Bool
deriving Inhabited

def SessionRelay.activePaths (r : SessionRelay) : ℕ := r.paths.length

structure Session where
  id : SessionID
  user : Bytes
  conv : UInt32
  expected : UInt16
  relay : SessionRelay
  ready : Bool
  setupErr : Option String
  generation : UInt64
  createdAt : ℤ
  pendingAttaches : ℕ

instance : Inhabited Session :=
  ⟨⟨Vector.replicate 16 0, [], 0, 0, default, false, none, 0, 0, 0⟩⟩

def Session.attached (s : Session) : Bool := s.pendingAttaches ≠ 0 ∨ s.relay.activePaths ≠ 0

structure Table where
  sessions : Dict SessionID ℕ
  userSessions : Dict Bytes ℤ
  heap : ℕ → Session
  fresh : ℕ

inductive SessionError
  | identityMismatch
  | replaced
  | setup (err : String)
  | cancelled
  | globalLimit
  | userLimit
  | generation

inductive Entered
  | failed (err : SessionError)
  | joining (r : ℕ)
  | created (r : ℕ)

namespace Table

def empty : Table := ⟨∅, ∅, fun _ => default, 0⟩

def userCount (t : Table) (user : Bytes) : ℤ := (t.userSessions.lookup user).getD 0

def modify (t : Table) (r : ℕ) (f : Session → Session) : Table :=
  { t with heap := Function.update t.heap r (f (t.heap r)) }

def register (t : Table) (s : Session) : Table :=
  { sessions := t.sessions.insert s.id t.fresh
    userSessions := t.userSessions.insert s.user (t.userCount s.user + 1)
    heap := Function.update t.heap t.fresh s
    fresh := t.fresh + 1 }

def unregister (t : Table) (id : SessionID) (user : Bytes) : Table :=
  { t with
    sessions := t.sessions.erase id
    userSessions := if t.userCount user ≤ 1 then t.userSessions.erase user
      else t.userSessions.insert user (t.userCount user - 1) }

def evictLoop (user : Bytes) (needed : ℤ) : List SessionID → Table → List ℕ → Table × List ℕ
  | [], t, evicted => (t, evicted)
  | id :: rest, t, evicted =>
    match t.sessions.lookup id with
    | none => evictLoop user needed rest t evicted
    | some r =>
      if needed ≤ evicted.length ∨ (t.heap r).user ≠ user ∨ (t.heap r).pendingAttaches ≠ 0 then
        evictLoop user needed rest t evicted
      else if (t.heap r).ready then
        evictLoop user needed rest { t with sessions := t.sessions.erase id } (evicted ++ [r])
      else evictLoop user needed rest t evicted

def evictSupersededUserSessionsLocked (t : Table) (user : Bytes) (maxSessions : ℕ)
    (order : List SessionID) : Table × List ℕ :=
  let needed := max 1 (t.userCount user - maxSessions + 1)
  let (t₁, evicted) := evictLoop user needed order t []
  if evicted.length > 0 then
    let remaining := t₁.userCount user - evicted.length
    ({ t₁ with userSessions := if remaining ≤ 0 then t₁.userSessions.erase user
        else t₁.userSessions.insert user remaining }, evicted)
  else (t₁, evicted)

def newSession (now : ℤ) (req : AuthRequest) (g : Generation) : Session :=
  { id := req.sessionID
    user := req.user
    conv := req.conv
    expected := req.workerTotal
    relay := ⟨[], false⟩
    ready := false
    setupErr := none
    generation := g.1
    createdAt := now
    pendingAttaches := 0 }

def makeRoom (o : Options) (t : Table) (user : Bytes) (order : List SessionID) : Table × List ℕ :=
  if t.sessions.size ≥ o.maxSessions ∨ t.userCount user ≥ o.userLimit user then
    t.evictSupersededUserSessionsLocked user (o.userLimit user) order
  else (t, [])

/-- `getOrCreateSession` up to the release of the lock: the new table, the evicted sessions, the outcome. -/
def enterSession (o : Options) (t : Table) (now : ℤ) (req : AuthRequest) (order : List SessionID)
    (generation : Option Generation) : Table × List ℕ × Entered :=
  match t.sessions.lookup req.sessionID with
  | some r =>
    if (t.heap r).user ≠ req.user ∨ (t.heap r).conv ≠ req.conv ∨ (t.heap r).expected ≠ req.workerTotal then
      (t, [], .failed .identityMismatch)
    else (t, [], .joining r)
  | none =>
    let (t₁, evicted) := t.makeRoom o req.user order
    if t₁.sessions.size ≥ o.maxSessions then (t₁, evicted, .failed .globalLimit)
    else if t₁.userCount req.user ≥ o.userLimit req.user then (t₁, evicted, .failed .userLimit)
    else
      match generation with
      | none => (t₁, evicted, .failed .generation)
      | some g => (t₁.register (newSession now req g), evicted, .created t₁.fresh)

section

variable (t : Table)

def joinSession (req : AuthRequest) (r : ℕ) : Table × Option SessionError :=
  if t.sessions.lookup req.sessionID ≠ some r then (t, some .replaced)
  else
    match (t.heap r).setupErr with
    | some err => (t, some (.setup err))
    | none => (t.modify r (fun s => { s with pendingAttaches := s.pendingAttaches + 1 }), none)

/-- The second critical section of the creating handshake, after `SessionHandler` returned. -/
def finishSetup (req : AuthRequest) (r : ℕ) (err : Option String) : Table :=
  let t₁ := t.modify r (fun s => { s with setupErr := err, ready := true })
  if err.isSome ∧ t₁.sessions.lookup req.sessionID = some r then t₁.unregister req.sessionID req.user
  else if t₁.sessions.lookup req.sessionID = some r then
    t₁.modify r (fun s => { s with pendingAttaches := s.pendingAttaches + 1 })
  else t₁

def releaseSessionAttach (r : ℕ) : Table :=
  t.modify r (fun s => { s with pendingAttaches := s.pendingAttaches - 1 })

/-- The body that `deleteIdleSession` and `deleteSessionIfUnattached` share; `none` leaves the session alone. -/
def deleteUnattached (id : SessionID) (expected : ℕ) : Option Table :=
  match t.sessions.lookup id with
  | none => none
  | some r =>
    if r ≠ expected ∨ (t.heap r).pendingAttaches ≠ 0 ∨ (t.heap r).relay.activePaths ≠ 0 then none
    else some (t.unregister id (t.heap r).user)

def deleteIdleSession (id : SessionID) (expected : ℕ) (_idleCutoff : ℤ) : Option Table :=
  t.deleteUnattached id expected

def deleteSessionIfUnattached (id : SessionID) (expected : ℕ) : Option Table :=
  t.deleteUnattached id expected

def staleSessions (idleCutoff : ℤ) (order : List SessionID) : List ℕ :=
  (order.filterMap (fun id => t.sessions.lookup id)).filter (fun r =>
    (t.heap r).pendingAttaches = 0 ∧ (t.heap r).relay.activePaths = 0 ∧ (t.heap r).createdAt < idleCutoff)

def clear : Table := { t with sessions := ∅, userSessions := ∅ }

def attachPath (r : ℕ) (conn : ℕ) : Table :=
  t.modify r (fun s => { s with relay := { s.relay with paths := s.relay.paths ++ [conn] } })

def removePath (r : ℕ) (conn : ℕ) : Table :=
  t.modify r (fun s => { s with relay := { s.relay with paths := s.relay.paths.erase conn } })

def closeRelay (r : ℕ) : Table :=
  t.modify r (fun s => { s with relay := { s.relay with paths := [], closed := true } })

end

end Table

end Hydracore.Parasite.Server
