import Hydracore.Formats.BigEndian
import Hydracore.Systems.Runs

/-!
One direction of a `RecordConn`: the peer that seals what it writes in records, the network, and the end that reads.
-/

namespace Hydracore.Sudoku

open Formats

structure Sealed where
  epoch : UInt32
  seq : UInt64
  plain : Bytes

def Sealed.header (r : Sealed) : UInt32 × UInt64 := (r.epoch, r.seq)

def recordHeaderSize : ℕ := 12

def maxFrameBodySize : ℕ := 65535

def overhead : ℕ := 16

def maxPlain : ℕ := maxFrameBodySize - recordHeaderSize - overhead

abbrev Cipher := UInt32 → UInt64 → Bytes → Bytes

def Cipher.frame (cipher : Cipher) (r : Sealed) : Bytes :=
  bigEndian 2 (recordHeaderSize + (r.plain.length + overhead)) ++
    (bigEndian 4 r.epoch.toNat ++ bigEndian 8 r.seq.toNat) ++ cipher r.epoch r.seq r.plain

/-- `writing` is what the current `Write` has left, `log` what has been sealed since the keys were set. -/
structure Sender where
  sendEpoch : UInt32
  sendSeq : UInt64
  sendBytes : Int64
  sendEpochUpdates : UInt32
  writing : Bytes
  log : List Sealed

namespace Sender

def written (s : Sender) : Bytes := s.log.flatMap Sealed.plain

def maybeBumpSendEpoch (s : Sender) (keyUpdateAfterBytes : Int64) (addedPlain : ℕ) (nextSeq : Option UInt64) :
    Sender × Bool :=
  if keyUpdateAfterBytes ≤ 0 then (s, true)
  else
    let counted := { s with sendBytes := s.sendBytes + Int64.ofNat addedPlain }
    if counted.sendBytes < keyUpdateAfterBytes * Int64.ofNat (s.sendEpochUpdates + 1).toNat then (counted, true)
    else
      let bumped := { counted with sendEpoch := s.sendEpoch + 1, sendEpochUpdates := s.sendEpochUpdates + 1 }
      match nextSeq with
      | none => (bumped, false)
      | some seq => ({ bumped with sendSeq := seq }, true)

def writeChunk (s : Sender) (keyUpdateAfterBytes : Int64) (nextSeq : Option UInt64) (sent : Bool) : Sender :=
  let chunk := s.writing.take maxPlain
  let sealing : Sender := { s with
    sendSeq := s.sendSeq + 1
    writing := s.writing.drop maxPlain
    log := s.log ++ [⟨s.sendEpoch, s.sendSeq, chunk⟩] }
  if sent then
    let bumped := sealing.maybeBumpSendEpoch keyUpdateAfterBytes chunk.length nextSeq
    if bumped.2 then bumped.1 else { bumped.1 with writing := [] }
  else { sealing with writing := [] }

end Sender

inductive ReadError
  | frameTooShort
  | replayedEpoch (got want : UInt32)
  | outOfOrder (epoch : UInt32) (got want : UInt64)
  | epochJump (got : UInt32)
  | decryptionFailed (epoch : UInt32) (seq : UInt64)
  | eof
  | closed
  deriving DecidableEq

/-- `wire` has arrived, `returned` has been handed out by `Read`; `accepted` counts records, `failed` is the first
error. -/
structure Receiver where
  recvEpoch : UInt32
  recvSeq : UInt64
  recvInitialized : Bool
  readBuf : Bytes
  wire : Bytes
  returned : Bytes
  accepted : ℕ
  failed : Option ReadError

namespace Receiver

def validateRecvPosition (r : Receiver) (epoch : UInt32) (seq : UInt64) : Option ReadError :=
  if r.recvInitialized = false then none
  else if epoch < r.recvEpoch then some (.replayedEpoch epoch r.recvEpoch)
  else if epoch = r.recvEpoch ∧ seq ≠ r.recvSeq then some (.outOfOrder epoch seq r.recvSeq)
  else if r.recvEpoch < epoch ∧ 8 < epoch - r.recvEpoch then some (.epochJump (epoch - r.recvEpoch))
  else none

def markRecvPosition (r : Receiver) (epoch : UInt32) (seq : UInt64) : Receiver :=
  { r with recvEpoch := epoch, recvSeq := seq + 1, recvInitialized := true, accepted := r.accepted + 1 }

def drain (r : Receiver) (size : ℕ) : Receiver :=
  if r.readBuf = [] ∧ size ≠ 0 then { r with failed := some .eof }
  else { r with readBuf := r.readBuf.drop size, returned := r.returned ++ r.readBuf.take size }

def readFrame (wire : Bytes) : Option (Except ReadError (Bytes × Bytes)) :=
  let bodyLen := ofBigEndian (wire.take 2)
  if wire.length < 2 then none
  else if bodyLen < recordHeaderSize then some (.error .frameTooShort)
  else if wire.length < 2 + bodyLen then none
  else some (.ok ((wire.drop 2).take bodyLen, wire.drop (2 + bodyLen)))

def epochOf (body : Bytes) : UInt32 := UInt32.ofNat (ofBigEndian (body.take 4))

def seqOf (body : Bytes) : UInt64 := UInt64.ofNat (ofBigEndian ((body.drop 4).take 8))

def openRecord (cipher : Cipher) (log : List Sealed) (body : Bytes) : Option Sealed :=
  log.find? fun r =>
    r.epoch = epochOf body ∧ r.seq = seqOf body ∧ cipher r.epoch r.seq r.plain = body.drop recordHeaderSize

def readBody (cipher : Cipher) (log : List Sealed) (r : Receiver) (size : ℕ) (body rest : Bytes) : Receiver :=
  match r.validateRecvPosition (epochOf body) (seqOf body) with
  | some error => { r with failed := some error }
  | none =>
    match openRecord cipher log body with
    | none => { r with failed := some (.decryptionFailed (epochOf body) (seqOf body)) }
    | some record =>
      { r.markRecvPosition (epochOf body) (seqOf body) with readBuf := record.plain, wire := rest }.drain size

def read (cipher : Cipher) (log : List Sealed) (r : Receiver) (size : ℕ) : Option Receiver :=
  if r.failed.isSome then none
  else if r.readBuf ≠ [] then some (r.drain size)
  else match readFrame r.wire with
    | none => none
    | some (.error error) => some { r with failed := some error }
    | some (.ok (body, rest)) => some (readBody cipher log r size body rest)

end Receiver

structure Channel where
  sender : Sender
  receiver : Receiver

inductive Transfer
  | write (p : Bytes)
  | chunk (keyUpdateAfterBytes : Int64) (nextSeq : Option UInt64) (sent : Bool)
  | deliver (bytes : Bytes)
  | read (size : ℕ)
  | close

namespace Channel

def start (sendEpoch : UInt32) (sendSeq : UInt64) : Channel :=
  ⟨⟨sendEpoch, sendSeq, 0, 0, [], []⟩, ⟨0, 0, false, [], [], [], 0, none⟩⟩

def step (cipher : Cipher) (c : Channel) : Transfer → Option Channel
  | .write p => if c.sender.writing = [] then some { c with sender := { c.sender with writing := p } } else none
  | .chunk keyUpdateAfterBytes nextSeq sent =>
    if c.sender.writing = [] then none
    else some { c with sender := c.sender.writeChunk keyUpdateAfterBytes nextSeq sent }
  | .deliver bytes => some { c with receiver := { c.receiver with wire := c.receiver.wire ++ bytes } }
  | .read size => (c.receiver.read cipher c.sender.log size).map fun receiver => { c with receiver := receiver }
  | .close =>
    if c.receiver.failed.isSome then none else some { c with receiver := { c.receiver with failed := some .closed } }

end Channel

end Hydracore.Sudoku
