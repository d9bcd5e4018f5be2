import Hydracore.Formats.BigEndian
import Hydracore.Formats.Numbers
import Hydracore.Systems.Runs

namespace Hydracore.Vless

open Formats Systems

variable {κ : Type}

def second : ℕ := 1000000000

def unix (now : ℕ) : ℤ := (now / second : ℕ)

structure Lifetimes where
  secondsFrom : ℤ
  secondsTo : ℤ
  fits : secondsFrom < 9223372036854775808 ∧ secondsTo < 9223372036854775808

/-- `RandBetween` with the random number, none if it panics for want of a range. -/
def randBetween (lo hi : ℤ) (random : ℕ) : Option ℤ :=
  if lo = hi then some lo
  else
    let width := int64 (max lo hi - min lo hi)
    if width ≤ 0 then none else some (min lo hi + random % width)

namespace Lifetimes

variable (l : Lifetimes)

def longest : ℤ := max l.secondsFrom l.secondsTo

def kept : Bool := decide (l.secondsFrom > 0 ∨ l.secondsTo > 0)

def seconds (random : ℕ) : Option ℤ :=
  if l.secondsTo = 0 then (randBetween 50 100 random).map fun percent => (int64 (l.secondsFrom * percent)).tdiv 100
  else randBetween l.secondsFrom l.secondsTo random

def marker (now : ℕ) : ℤ := (int64 (unix now + l.longest)).tdiv 60 + 2

end Lifetimes

structure Issued where
  ticket : Bytes
  time : ℕ
  seconds : ℤ
  deriving DecidableEq

def encodeLength (length : ℤ) : Bytes := bigEndian 2 (length % 65536).toNat

def ticketOf (random : Bytes) (seconds : ℤ) : Bytes := encodeLength seconds ++ random.drop 2

structure ServerSession (κ : Type) where
  ticket : Bytes
  pfsKey : Bytes
  nfsKeys : List κ

/-- `sessions` points into `made`, the sessions there have been. `pending` are handshakes that hold the session of their
ticket, `accepted` those that have come through, and `issued` all tickets. -/
structure Server (κ : Type) where
  clock : ℕ
  closed : Bool
  cleaning : Bool
  lasts : ℤ → Option Issued
  tickets : List Issued
  sessions : Bytes → Option ℕ
  made : List (ServerSession κ)
  pending : List (ℕ × Bytes × κ)
  accepted : List (Bytes × κ)
  issued : List Issued

inductive Step (κ : Type)
  | tick (elapsed : ℕ)
  | issue (random pfsKey : Bytes) (lifetime : ℕ)
  | lookup (ticket : Bytes) (nfsKey : κ)
  | loadOrStore (i : ℕ)
  | wake
  | close

namespace Server

variable (l : Lifetimes)

def start (clock : ℕ) : Server κ := ⟨clock, false, l.kept, fun _ => none, [], fun _ => none, [], [], [], []⟩

def file (s : Server κ) (r : Issued) (pfsKey : Bytes) : Server κ :=
  { s with
    lasts := Function.update s.lasts (l.marker s.clock) (some r)
    tickets := s.tickets ++ [r]
    sessions := Function.update s.sessions r.ticket (some s.made.length)
    made := s.made ++ [⟨r.ticket, pfsKey, []⟩]
    issued := s.issued ++ [r] }

def walk (last : Bytes) : List Issued → (Bytes → Option ℕ) → (Bytes → Option ℕ) × Option (List Issued)
  | [], sessions => (sessions, none)
  | r :: tickets, sessions =>
    let dropped := Function.update sessions r.ticket none
    if r.ticket = last then (dropped, some tickets) else walk last tickets dropped

def drop (s : Server κ) (last : Issued) : Server κ :=
  let walked := walk last.ticket s.tickets s.sessions
  { s with sessions := walked.1, tickets := walked.2.getD s.tickets }

def noTicket : Bytes := List.replicate 16 0

def unfile (s : Server κ) (minute : ℤ) : Server κ := { s with lasts := Function.update s.lasts minute none }

def cleanUp (s : Server κ) : Server κ :=
  let minute := unix s.clock / 60
  let unfiled := (s.unfile minute).unfile (minute - 1)
  match s.lasts minute with
  | none => unfiled
  | some last => if last.ticket = noTicket then unfiled else unfiled.drop last

def load (s : Server κ) (ticket : Bytes) (nfsKey : κ) : Server κ :=
  match s.sessions ticket with
  | none => s
  | some session => { s with pending := s.pending ++ [(session, ticket, nfsKey)] }

variable [DecidableEq κ]

def accept (s : Server κ) (i : ℕ) (handshake : ℕ × Bytes × κ) (session : ServerSession κ) : Server κ :=
  let rest := { s with pending := s.pending.eraseIdx i }
  if handshake.2.2 ∈ session.nfsKeys then rest
  else { rest with
    made := s.made.set handshake.1 { session with nfsKeys := handshake.2.2 :: session.nfsKeys }
    accepted := (handshake.2.1, handshake.2.2) :: s.accepted }

def step (s : Server κ) : Step κ → Option (Server κ)
  | .tick elapsed => some { s with clock := s.clock + elapsed }
  | .issue random pfsKey lifetime =>
    match l.seconds lifetime with
    | none => none
    | some seconds =>
      let r : Issued := ⟨ticketOf random seconds, s.clock, seconds⟩
      if random.length ≠ 16 then none
      else if seconds ≤ 0 then some { s with issued := s.issued ++ [r] }
      -- a write to a map that is not there panics
      else if l.kept then some (s.file l r pfsKey) else none
  | .lookup ticket nfsKey => if l.secondsFrom = 0 ∧ l.secondsTo = 0 then some s else some (s.load ticket nfsKey)
  | .loadOrStore i =>
    match s.pending[i]? with
    | none => none
    | some handshake => (s.made[handshake.1]?).map fun session => s.accept i handshake session
  | .wake =>
    if s.cleaning then some (if s.closed then { s with cleaning := false } else s.cleanUp) else none
  | .close => some { s with closed := true }

end Server

end Hydracore.Vless
