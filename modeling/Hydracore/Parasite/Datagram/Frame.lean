import Hydracore.Formats.Pieces

namespace Hydracore.Parasite.Datagram

open Formats

def quicPacketSize : ℕ := 1320
def quicSendDatagramLimit : ℕ := quicPacketSize - 1 - 20 - 16
def maxDatagramFramePayload : ℕ := quicSendDatagramLimit

def maxDatagramFragments : ℕ := 255
def datagramFragmentHeader : ℕ := 2
def datagramAssocIDReserve : ℕ := 4
def datagramPacketIDReserve : ℕ := 5
def maxDatagramPayload : ℕ := 65535

structure AddrSerializer (Addr : Type) extends AddressSerializer Addr where
  addrPortLen : Addr → ℕ
  length_write : ∀ d b, writeAddrPort d = some b → b.length = addrPortLen d
  bounded : ∀ d b, writeAddrPort d = some b → addrPortLen d ≤ 259

def ipv4Serializer : AddrSerializer IPv4AddrPort where
  writeAddrPort x := some [1, x.a, x.b, x.c, x.d, x.high, x.low]
  readAddrPort
    | 1 :: a :: b :: c :: d :: high :: low :: rest => some (⟨a, b, c, d, high, low⟩, rest)
    | _ => none
  readAddrPort_append := by
    rintro x b rest ⟨⟩
    rfl
  addrPortLen _ := 7
  length_write := by
    rintro x b ⟨⟩
    rfl
  bounded := by
    intro x b h
    decide

variable {Addr : Type} {S : AddrSerializer Addr}

/-- The sending half of a `datagramAssociation`; its header cache never goes stale. -/
structure Sender (S : AddrSerializer Addr) where
  id : UInt64
  destination : Addr
  connected : Bool
  closed : Bool
  nextPacket : UInt64
  headerBase : Option Bytes
  cached : ∀ base, headerBase = some base → ∃ d, S.writeAddrPort destination = some d ∧ base = putUvarint id ++ d

inductive WriteError (Addr : Type)
  | noTunnel
  | closed
  | tooLarge (length : ℕ) (destination : Addr)
  | address
  | noBudget (destination : Addr)

namespace Sender

def framePrefixReserve (a : Sender S) : ℕ :=
  datagramAssocIDReserve + S.addrPortLen a.destination + datagramPacketIDReserve

def fragmentBudget (a : Sender S) : ℕ := maxDatagramFramePayload - a.framePrefixReserve - datagramFragmentHeader

def header (a : Sender S) : Option Bytes :=
  match a.headerBase with
  | some base => some base
  | none => (S.writeAddrPort a.destination).map fun d => putUvarint a.id ++ d

theorem header_some {a : Sender S} {base : Bytes} (h : a.header = some base) :
    ∃ d, S.writeAddrPort a.destination = some d ∧ base = putUvarint a.id ++ d := by
  unfold header at h
  split at h
  · rename_i hb
    exact a.cached base (hb.trans h)
  · obtain ⟨d, hd, rfl⟩ := Option.map_eq_some_iff.mp h
    exact ⟨d, hd, rfl⟩

def framePrefix (a : Sender S) : Sender S × Option Bytes :=
  match h : a.header with
  | none => (a, none)
  | some base =>
    let packetID := a.nextPacket + 1
    ({ a with
        nextPacket := packetID
        headerBase := some base
        cached := fun _ hb => Option.some.inj hb ▸ header_some h }, some (base ++ putUvarint packetID))

def packet (head : Bytes) (budget total : ℕ) (p : Bytes) (index : ℕ) : Bytes :=
  head ++ [UInt8.ofNat total, UInt8.ofNat index] ++ chunk budget p index

def write (a : Sender S) (p : Bytes) : Sender S × Except (WriteError Addr) (List Bytes) :=
  if ¬ a.connected then (a, .error .noTunnel)
  else if a.closed then (a, .error .closed)
  else if p.length > maxDatagramPayload then (a, .error (.tooLarge p.length a.destination))
  else
    match a.framePrefix with
    | (a, none) => (a, .error .address)
    | (a, some head) =>
      if head.length > a.framePrefixReserve then (a, .error (.noBudget a.destination))
      else if a.fragmentBudget < 1 then (a, .error (.noBudget a.destination))
      else
        let total := chunkCount a.fragmentBudget p.length
        if total > maxDatagramFragments then (a, .error (.tooLarge p.length a.destination))
        else (a, .ok ((List.range total).map (packet head a.fragmentBudget total p)))

end Sender

structure Frame (Addr : Type) where
  associationID : UInt64
  destination : Addr
  packetID : UInt64
  total : UInt8
  index : UInt8
  fragment : Bytes
  inRange : index < total
deriving DecidableEq

def parseDatagramFrame (S : AddrSerializer Addr) (raw : Bytes) : Option (Frame Addr) :=
  (readUvarint raw).bind fun (associationID, rest) =>
  (S.readAddrPort rest).bind fun (destination, rest) =>
  (readUvarint rest).bind fun (packetID, rest) =>
  match rest with
  | total :: index :: fragment =>
    if h : total = 0 ∨ total ≤ index then none
    else some ⟨associationID, destination, packetID, total, index, fragment, UInt8.not_le.mp (not_or.mp h).2⟩
  | _ => none

def Sender.frames (a : Sender S) (p : Bytes) : List (Frame Addr) :=
  match (a.write p).2 with
  | .ok packets => packets.filterMap (parseDatagramFrame S)
  | .error _ => []

def maxPendingDatagrams : ℕ := 16

def datagramReassemblyTimeout : ℤ := 5000000000

def datagramReceiveQueue : ℕ := 256

structure Pending where
  packetID : UInt64
  total : UInt8
  remaining : UInt8
  size : ℕ
  fragments : List (Option Bytes)
  expiresAt : ℤ

structure Receiver where
  recvQueue : List Bytes
  closed : Bool
  pending : List Pending

def Receiver.new : Receiver := ⟨[], false, []⟩

namespace Pending

def created (packetID : UInt64) (total : UInt8) (now : ℤ) : Pending :=
  ⟨packetID, total, total, 0, List.replicate total.toNat none, now + datagramReassemblyTimeout⟩

def sweep (packetID : UInt64) (now : ℤ) (pending : List Pending) : List Pending × Option ℕ :=
  pending.foldl (fun (kept, found) candidate =>
    if candidate.packetID = packetID then (kept ++ [candidate], some kept.length)
    else if now < candidate.expiresAt then (kept ++ [candidate], found)
    else (kept, found)) ([], none)

section

variable (pending : List Pending)

def expiryAt (i : ℕ) : ℤ := (pending[i]?).elim 0 expiresAt

def oldest : ℕ :=
  (List.range' 1 (pending.length - 1)).foldl
    (fun oldest index => if expiryAt pending index < expiryAt pending oldest then index else oldest) 0

def makeRoom : List Pending :=
  if pending.length ≥ maxPendingDatagrams then pending.eraseIdx (oldest pending) else pending

def pendingFor (packetID : UInt64) (total : UInt8) (now : ℤ) : List Pending × Option ℕ :=
  match sweep packetID now pending with
  | (kept, some i) => (kept, if (kept[i]?).any (fun q => q.total = total) then some i else none)
  | (kept, none) => (makeRoom kept ++ [created packetID total now], some (makeRoom kept).length)

def dropPending (packetID : UInt64) : List Pending :=
  pending.eraseP (fun q => q.packetID = packetID)

end

def store (q : Pending) (index : UInt8) (fragment : Bytes) : Pending :=
  { q with
    fragments := q.fragments.set index.toNat (some fragment)
    size := q.size + fragment.length
    remaining := q.remaining - 1 }

def payload (q : Pending) : Bytes := q.fragments.flatMap (fun fragment => fragment.getD [])

end Pending

open Pending

/-- What `deliverFragment` does under `pendingMu`: the collectors, and the datagram it completed. -/
def collect (pending : List Pending) (packetID : UInt64) (total index : UInt8) (fragment : Bytes) (now : ℤ) :
    List Pending × Option Bytes :=
  match pendingFor pending packetID total now with
  | (pending, none) => (pending, none)
  | (pending, some i) =>
    match pending[i]? with
    | none => (pending, none)
    | some q =>
      if (q.fragments[index.toNat]?).any Option.isSome then (pending, none)
      else
        let q := q.store index fragment
        let pending := pending.set i q
        if q.size > maxDatagramPayload then (dropPending pending packetID, none)
        else if q.remaining > 0 then (pending, none)
        else (dropPending pending packetID, some q.payload)

namespace Receiver

def deliver (a : Receiver) (payload : Bytes) : Receiver × Option Bytes :=
  if a.recvQueue.length < datagramReceiveQueue then ({ a with recvQueue := a.recvQueue ++ [payload] }, some payload)
  else (a, none)

def deliverFragment {Addr : Type} (a : Receiver) (now : ℤ) (frame : Frame Addr) : Receiver × Option Bytes :=
  if a.closed then (a, none)
  else if frame.total = 1 then a.deliver frame.fragment
  else
    match collect a.pending frame.packetID frame.total frame.index frame.fragment now with
    | (pending, none) => ({ a with pending := pending }, none)
    | (pending, some payload) => deliver { a with pending := pending } payload

def read (a : Receiver) : Receiver := { a with recvQueue := a.recvQueue.tail }

def close (a : Receiver) : Receiver := { a with closed := true, pending := [] }

end Receiver

inductive Event (Addr : Type)
  | frame (now : ℤ) (f : Frame Addr)
  | read
  | close

structure Trace where
  receiver : Receiver
  queued : List (UInt64 × Bytes)

def Trace.step {Addr : Type} (t : Trace) : Event Addr → Option Trace
  | .frame now f =>
    let (receiver, out) := t.receiver.deliverFragment now f
    some ⟨receiver, t.queued ++ (out.map (f.packetID, ·)).toList⟩
  | .read => some { t with receiver := t.receiver.read }
  | .close => some { t with receiver := t.receiver.close }

end Hydracore.Parasite.Datagram
