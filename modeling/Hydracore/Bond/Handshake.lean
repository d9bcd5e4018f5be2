import Hydracore.Bond.Assembly
import Hydracore.Common.Kmutex

namespace Hydracore.Bond

open Formats Common

inductive Status where
  | cached
  | expired
  | evicted
  deriving DecidableEq

structure ConnSet where
  key : UUID
  ratioConns : RatioConns
  status : Status

inductive Job (α : Type) where
  | connHandler (request : Request α)
  | onEvicted (key : UUID) (set : ℕ)
  deriving DecidableEq

inductive Result where
  | ok
  | invalidRatios
  | badRequest (error : RequestError)
  | evicted
  deriving DecidableEq

inductive Task (α : Type) where
  | ready (job : Job α)
  | locking (job : Job α)
  | locked (job : Job α)
  | fetched (request : Request α) (set : ℕ)
  | releasing (key : UUID) (result : Result)
  | returned (result : Result)
  | panicked (key : UUID)
  deriving DecidableEq

structure Inbound (α : Type) where
  mtx : Kmutex UUID
  cache : UUID → Option ℕ
  sets : List ConnSet
  bonded : List BondedConn
  closed : List ℕ
  tasks : List (Task α)

/-- `accept` has the bytes that arrive on a new connection; `expire` is the cache dropping an expired set. -/
inductive Step where
  | accept (stream : Bytes)
  | advance (task : ℕ)
  | expire (key : UUID)

variable {α : Type}

def Job.key : Job α → UUID
  | connHandler request => request.uuid
  | onEvicted key _ => key

def RatioConns.conns (ratioConns : RatioConns) : List ℕ := ratioConns.entries.map fun entry => entry.2.conn

namespace Inbound

def start : Inbound α := ⟨.new, fun _ => none, [], [], [], []⟩

def fetch (h : Inbound α) (request : Request α) : Inbound α × Task α :=
  match h.cache request.uuid with
  | some set => (h, .fetched request set)
  | none => ({ h with
      sets := h.sets ++ [⟨request.uuid, ∅, .cached⟩]
      cache := Function.update h.cache request.uuid (some h.sets.length) }, .fetched request h.sets.length)

def store (h : Inbound α) (conn : ℕ) (request : Request α) (set : ℕ) (s : ConnSet) : Inbound α × Task α :=
  match collect s.ratioConns conn request with
  | .waiting ratioConns =>
    ({ h with sets := h.sets.set set { s with ratioConns := ratioConns } }, .releasing request.uuid .ok)
  | .invalid conns =>
    ({ h with sets := h.sets.set set { s with ratioConns := ∅ }, closed := h.closed ++ conns },
      .releasing request.uuid .invalidRatios)
  | .bonded bondedConn =>
    ({ h with sets := h.sets.set set { s with ratioConns := ∅ }, bonded := h.bonded ++ [bondedConn] },
      .releasing request.uuid .ok)
  | .panicked => (h, .panicked request.uuid)

def advance (h : Inbound α) (i : ℕ) : Task α → Option (Inbound α × Task α)
  | .ready job =>
    some ({ h with mtx := h.mtx.lock job.key }, if (h.mtx job.key).isNone then .locked job else .locking job)
  | .locking job => (h.mtx.wake job.key).map fun km => ({ h with mtx := km }, .locked job)
  | .locked (.connHandler request) => some (h.fetch request)
  | .locked (.onEvicted key set) => h.sets[set]?.map fun s =>
    ({ h with sets := h.sets.set set { s with status := .evicted }, closed := h.closed ++ s.ratioConns.conns },
      .releasing key .evicted)
  | .fetched request set => h.sets[set]?.map fun s => h.store i request set s
  | .releasing key result => (h.mtx.unlock key).map fun km => ({ h with mtx := km }, .returned result)
  | .returned _ => none
  | .panicked _ => none

def step (serializer : AddressSerializer α) (h : Inbound α) : Step → Option (Inbound α)
  | .accept stream => some { h with tasks := h.tasks ++ [
      match readRequest serializer stream with
      | .ok (request, _) => .ready (.connHandler request)
      | .error e => .returned (.badRequest e)] }
  | .advance i => h.tasks[i]?.bind fun task => (h.advance i task).map fun moved =>
    { moved.1 with tasks := moved.1.tasks.set i moved.2 }
  | .expire key => (h.cache key).bind fun set => h.sets[set]?.map fun s =>
    { h with
      cache := Function.update h.cache key none
      sets := h.sets.set set { s with status := .expired }
      tasks := h.tasks ++ [.ready (.onEvicted key set)] }

end Inbound

end Hydracore.Bond
