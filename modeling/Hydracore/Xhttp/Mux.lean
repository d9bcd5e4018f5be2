import Hydracore.Systems.Runs
import Hydracore.Systems.Slices

/-!
The pool of physical transports of XHTTP: `XmuxClient`, `XmuxManager` and the loops of `Reset` and `Close` that close
the clients they took from the pool after its lock is released.
-/

namespace Hydracore.Xhttp

open Systems

def hardXmuxPoolLimit : ℕ := 16

/-- `connClosed` is `XmuxConn.IsClosed()`. `forced` says that `ForceClose` has been called. -/
structure XmuxClient where
  connClosed : Bool
  openUsage : ℤ
  leftUsage : ℤ
  leftRequests : Int32
  unreusableAt : Option ℕ
  closed : Bool
  forced : Bool

namespace XmuxClient

def close (c : XmuxClient) : XmuxClient := { c with closed := true, connClosed := c.connClosed || c.openUsage ≤ 0 }

def forceClose (c : XmuxClient) : XmuxClient := { c with closed := true, connClosed := true, forced := true }

def addOpenUsage (delta : ℤ) (c : XmuxClient) : XmuxClient :=
  { c with
    openUsage := c.openUsage + delta
    connClosed := c.connClosed || (c.closed && c.openUsage + delta ≤ 0) }

def spent (now : ℕ) (c : XmuxClient) : Bool :=
  c.connClosed || c.leftUsage = 0 || c.leftRequests ≤ 0 || c.unreusableAt.any (· < now)

end XmuxClient

structure Draws where
  cMaxReuseTimes : ℤ
  hMaxRequestTimes : ℤ
  hMaxReusableSecs : ℤ

/-- A call of `Reset` or `Close` in its loop: `next` is the index of the next slot to read, `current` the client read and
not yet closed. `taken` are the clients it took from the pool, `born` is the number of clients made by then, and `hits`
are those it has closed. -/
structure Closer where
  slice : Slice
  next : ℕ
  current : Option ℕ
  taken : List ℕ
  born : ℕ
  hits : List ℕ

def Closer.returned (k : Closer) : Bool := k.current.isNone && k.slice.len ≤ k.next

/-- Clients are known by their index in `clients`; `memory` has the arrays behind `xmuxClients`. Times are in seconds. -/
structure XmuxManager where
  concurrency : ℤ
  connections : ℤ
  xmuxClients : Slice
  closed : Bool
  memory : Memory ℕ
  clients : List XmuxClient
  closers : List Closer
  now : ℕ

inductive Step where
  | getXmuxClient (draws : Draws) (random : ℕ)
  | reset
  | close
  | fetch (k : ℕ)
  | forceClose (k : ℕ)
  | addOpenUsage (c : ℕ) (delta : ℤ)
  | request (c : ℕ)
  | disconnect (c : ℕ)
  | tick

namespace XmuxManager

def newXmuxManager (concurrency connections : ℤ) : XmuxManager :=
  { concurrency := concurrency
    connections := min connections hardXmuxPoolLimit
    xmuxClients := ⟨0, 0⟩
    closed := false
    memory := [[]]
    clients := []
    closers := []
    now := 0 }

def onClient (m : XmuxManager) (c : ℕ) (f : XmuxClient → XmuxClient) : XmuxManager :=
  { m with clients := m.clients.modify c f }

def spentAt (m : XmuxManager) (c : ℕ) : Bool := (m.clients[c]?).any (·.spent m.now)

def openUsageOf (m : XmuxManager) (c : ℕ) : ℤ := ((m.clients[c]?).map (·.openUsage)).getD 0

/-- The loop over the pool with `left` slots to go, and the clients it has dropped. -/
def evict (m : XmuxManager) : ℕ → List ℕ → XmuxManager × List ℕ
  | 0, evicted => (m, evicted)
  | left + 1, evicted =>
    let i := m.xmuxClients.len - (left + 1)
    let xmuxClient := (m.memory.slot m.xmuxClients.array i).getD 0
    if m.spentAt xmuxClient then
      evict { m with
        memory := (m.xmuxClients.remove m.memory i).1
        xmuxClients := (m.xmuxClients.remove m.memory i).2 } left (evicted ++ [xmuxClient])
    else evict m left evicted

def closeEvicted (m : XmuxManager) (evicted : List ℕ) : XmuxManager :=
  evicted.foldl (fun m c => m.onClient c XmuxClient.close) m

def newClient (m : XmuxManager) (draws : Draws) : XmuxClient :=
  { connClosed := false
    openUsage := 0
    leftUsage := if draws.cMaxReuseTimes > 0 then draws.cMaxReuseTimes - 1 else -1
    leftRequests := if draws.hMaxRequestTimes > 0 then .ofInt draws.hMaxRequestTimes else .maxValue
    unreusableAt := if draws.hMaxReusableSecs > 0 then some (m.now + draws.hMaxReusableSecs.toNat) else none
    closed := false
    forced := false }

variable (grow : ℕ → ℕ)

section

variable (m : XmuxManager)

def newXmuxClient (draws : Draws) : XmuxManager × ℕ :=
  let c := m.clients.length
  ({ m with
      clients := m.clients ++ [m.newClient draws]
      memory := (m.xmuxClients.append grow 0 m.memory c).1
      xmuxClients := (m.xmuxClients.append grow 0 m.memory c).2 }, c)

def leastLoaded (pool : List ℕ) : ℕ :=
  pool.tail.foldl (fun best c => if m.openUsageOf c < m.openUsageOf best then c else best) (pool.headD 0)

def choose (draws : Draws) (random : ℕ) : XmuxManager × ℕ :=
  let pool := m.xmuxClients.read m.memory
  let candidates := if m.concurrency > 0 then pool.filter (fun c => m.openUsageOf c < m.concurrency) else pool
  if pool.isEmpty then m.newXmuxClient grow draws
  else if 0 < m.connections ∧ pool.length < m.connections then m.newXmuxClient grow draws
  else if candidates.isEmpty then
    if pool.length < hardXmuxPoolLimit ∧ (m.connections ≤ 0 ∨ pool.length < m.connections) then
      m.newXmuxClient grow draws
    else (m, m.leastLoaded pool)
  else
    let c := candidates.getD (random % candidates.length) 0
    (m.onClient c (fun x => if 0 < x.leftUsage then { x with leftUsage := x.leftUsage - 1 } else x), c)

def getXmuxClient (draws : Draws) (random : ℕ) : XmuxManager × Option ℕ :=
  if m.closed then (m, none)
  else
    let swept := m.evict m.xmuxClients.len []
    let chosen := (swept.1.closeEvicted swept.2).choose grow draws random
    (chosen.1, some chosen.2)

def takePool : XmuxManager :=
  { m with
    xmuxClients := m.xmuxClients.truncate
    closers := m.closers ++
      [{ slice := m.xmuxClients
         next := 0
         current := none
         taken := m.xmuxClients.read m.memory
         born := m.clients.length
         hits := [] }] }

def reset : XmuxManager := if m.closed then m else m.takePool

def close : XmuxManager := if m.closed then m else { m.takePool with closed := true }

def fetch (k : ℕ) (closer : Closer) : Option XmuxManager :=
  if closer.current.isNone ∧ closer.next < closer.slice.len then
    some { m with
      closers := m.closers.set k
        { closer with
          next := closer.next + 1
          current := m.memory.slot closer.slice.array closer.next } }
  else none

def forceClose (k : ℕ) (closer : Closer) : Option XmuxManager :=
  match closer.current with
  | none => none
  | some c =>
    some { m.onClient c XmuxClient.forceClose with
      closers := m.closers.set k { closer with current := none, hits := closer.hits ++ [c] } }

def step : Step → Option XmuxManager
  | .getXmuxClient draws random => some (m.getXmuxClient grow draws random).1
  | .reset => some m.reset
  | .close => some m.close
  | .fetch k => (m.closers[k]?).bind (m.fetch k)
  | .forceClose k => (m.closers[k]?).bind (m.forceClose k)
  | .addOpenUsage c delta => some (m.onClient c (·.addOpenUsage delta))
  | .request c => some (m.onClient c fun x => { x with leftRequests := x.leftRequests - 1 })
  | .disconnect c => some (m.onClient c fun x => { x with connClosed := true })
  | .tick => some { m with now := m.now + 1 }

def forcedAt (c : ℕ) : Bool := (m.clients[c]?).any (·.forced)

/-- A call of `Reset` or `Close` hits the clients it took: all of them once it has returned, and no younger one. -/
def Exact (closer : Closer) : Prop :=
  (closer.returned = true → ∀ c ∈ closer.taken, m.forcedAt c = true) ∧ ∀ c ∈ closer.hits, c < closer.born

end

/-- Nobody is between the slots `GetXmuxClient` may write: each loop over the array of the pool has read them all. -/
def passed (m : XmuxManager) (closer : Closer) : Bool :=
  closer.slice.array ≠ m.xmuxClients.array || m.xmuxClients.len < closer.next || closer.slice.len ≤ closer.next

/-- `GetXmuxClient` on an open manager comes only when the loops have passed the slots it may write. -/
def orderly (m : XmuxManager) : Step → Bool
  | .getXmuxClient _ _ => m.closed || m.closers.all m.passed
  | _ => true

end XmuxManager

end Hydracore.Xhttp
