import Hydracore.Systems.Runs

/-!
The FakeIP mappings of the cache file: the entries being saved, the buckets of the database, the goroutines of
`FakeIPStoreAsync`, and loads that look at the first and then at the second.
-/

namespace Hydracore.Cachefile

open Function

inductive Address where
  | v4 (bits : BitVec 32)
  | v6 (bits : BitVec 128)
  deriving DecidableEq

def Address.is4 : Address → Bool
  | v4 _ => true
  | v6 _ => false

abbrev Log := List (Address × String)

inductive WriterPhase where
  | storing
  | stored
  | done
  deriving DecidableEq

structure Writer where
  address : Address
  domain : String
  phase : WriterPhase

/-- `FakeIPLoad` asks for a domain, `FakeIPLoadDomain` for an address of a family. -/
inductive Query where
  | domainOf (address : Address)
  | addressOf (is4 : Bool) (domain : String)

inductive Answer where
  | domain (found : Option String)
  | address (found : Option Address)
  deriving DecidableEq

inductive LoadPhase where
  | entered
  | missed
  | returned (answer : Answer)
  deriving DecidableEq

structure Load where
  query : Query
  phase : LoadPhase
  seen : List Log

/-- `saveAddress` is `saveAddress4` at `true` and `saveAddress6` at `false`; the buckets of domains are kept likewise. -/
structure CacheFile where
  saveDomain : Address → Option String
  saveAddress : Bool × String → Option Address
  bucketFakeIP : Address → Option String
  bucketFakeIPDomain : Bool × String → Option Address
  writers : List Writer
  loads : List Load
  log : Log

inductive Step where
  | storeAsync (address : Address) (domain : String)
  | batch (i : ℕ)
  | finish (i : ℕ)
  | reset
  | restart
  | call (query : Query)
  | lookup (j : ℕ)
  | view (j : ℕ)

def Writer.inFlight (w : Writer) : Bool := w.phase ≠ .done

def Writer.key (w : Writer) : Bool × String := (w.address.is4, w.domain)

def lastDomain (log : Log) (address : Address) : Option String := (log.find? (·.1 = address)).map (·.2)

def lastAddress (log : Log) (key : Bool × String) : Option Address :=
  (log.find? fun e => (e.1.is4, e.2) = key).map (·.1)

/-- What a load may answer when `log` has been stored: the latest domain of an address; and the latest address of a
domain unless it has since been given to another one, in any case an address stored with the domain. -/
def Accepts (log : Log) : Query → Answer → Prop
  | .domainOf address, .domain found => found = lastDomain log address
  | .addressOf is4 domain, .address found =>
    (∀ a, lastAddress log (is4, domain) = some a → lastDomain log a = some domain → found = some a) ∧
      ∀ a, found = some a → (a, domain) ∈ log ∧ a.is4 = is4
  | _, _ => False

def Load.see (log : Log) (load : Load) : Load :=
  match load.phase with
  | .returned _ => load
  | _ => { load with seen := load.seen ++ [log] }

namespace CacheFile

def start : CacheFile := ⟨fun _ => none, fun _ => none, fun _ => none, fun _ => none, [], [], []⟩

section

variable (c : CacheFile)

def record (log : Log) : CacheFile := { c with log := log, loads := c.loads.map (·.see log) }

def fakeIPStore (address : Address) (domain : String) : CacheFile :=
  let bucket := match c.bucketFakeIP address with
    | none => c.bucketFakeIPDomain
    | some oldDomain => update c.bucketFakeIPDomain (address.is4, oldDomain) none
  { c with
    bucketFakeIP := update c.bucketFakeIP address (some domain)
    bucketFakeIPDomain := update bucket (address.is4, domain) (some address) }

/-- `FakeIPStoreAsync` up to the start of its goroutine. -/
def fakeIPStoreAsync (address : Address) (domain : String) : CacheFile :=
  let saveAddress := match c.saveDomain address with
    | none => c.saveAddress
    | some oldDomain => update c.saveAddress (address.is4, oldDomain) none
  { c with
    saveDomain := update c.saveDomain address (some domain)
    saveAddress := update saveAddress (address.is4, domain) (some address)
    writers := c.writers ++ [⟨address, domain, .storing⟩] }

def forget (w : Writer) : CacheFile :=
  { c with
    saveDomain := update c.saveDomain w.address none
    saveAddress := update c.saveAddress w.key none }

def moveWriter (i : ℕ) (w : Writer) (phase : WriterPhase) : CacheFile :=
  { c with writers := c.writers.set i { w with phase := phase } }

def fakeIPReset : CacheFile :=
  { c with bucketFakeIP := fun _ => none, bucketFakeIPDomain := fun _ => none }

/-- The next process finds the database and nothing else. -/
def reopen : CacheFile :=
  { c with saveDomain := fun _ => none, saveAddress := fun _ => none, writers := [], loads := [] }

def cached : Query → Option Answer
  | .domainOf address => (c.saveDomain address).map fun d => .domain (some d)
  | .addressOf is4 domain => (c.saveAddress (is4, domain)).map fun a => .address (some a)

def view : Query → Answer
  | .domainOf address => .domain (c.bucketFakeIP address)
  | .addressOf is4 domain => .address (c.bucketFakeIPDomain (is4, domain))

def load (query : Query) : Answer := (c.cached query).getD (c.view query)

def moveLoad (j : ℕ) (l : Load) (phase : LoadPhase) : CacheFile :=
  { c with loads := c.loads.set j { l with phase := phase } }

def batch (i : ℕ) (w : Writer) : Option CacheFile :=
  if w.phase = .storing then some ((c.fakeIPStore w.address w.domain).moveWriter i w .stored) else none

def finish (i : ℕ) (w : Writer) : Option CacheFile :=
  if w.phase = .stored then some ((c.forget w).moveWriter i w .done) else none

def lookup (j : ℕ) (l : Load) : Option CacheFile :=
  if l.phase = .entered then
    match c.cached l.query with
    | some answer => some (c.moveLoad j l (.returned answer))
    | none => some (c.moveLoad j l .missed)
  else none

def viewStep (j : ℕ) (l : Load) : Option CacheFile :=
  if l.phase = .missed then some (c.moveLoad j l (.returned (c.view l.query))) else none

def step : Step → Option CacheFile
  | .storeAsync address domain =>
    if domain = "" then none else some ((c.fakeIPStoreAsync address domain).record ((address, domain) :: c.log))
  | .batch i => (c.writers[i]?).bind (c.batch i)
  | .finish i => (c.writers[i]?).bind (c.finish i)
  | .reset => some (c.fakeIPReset.record [])
  | .restart => some c.reopen
  | .call query => some { c with loads := c.loads ++ [⟨query, .entered, [c.log]⟩] }
  | .lookup j => (c.loads[j]?).bind (c.lookup j)
  | .view j => (c.loads[j]?).bind (c.viewStep j)

def quiet (address : Address) : Bool := c.writers.all fun w => !w.inFlight || w.address ≠ address

def quietKey (key : Bool × String) : Bool := c.writers.all fun w => !w.inFlight || w.key ≠ key

def careful : Step → Bool
  | .storeAsync address domain =>
    c.quiet address && c.quietKey (address.is4, domain) && (lastAddress c.log (address.is4, domain)).all c.quiet &&
      (lastDomain c.log address).all fun old =>
        old = domain || lastAddress c.log (address.is4, old) = some address
  | .reset | .restart => c.writers.all (!·.inFlight)
  | _ => true

end

end CacheFile

end Hydracore.Cachefile
