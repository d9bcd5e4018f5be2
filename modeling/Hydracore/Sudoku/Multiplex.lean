import Hydracore.Formats.BigEndian
import Hydracore.Systems.Dicts

/-!
One multiplexed `Session` under any interleaving of its goroutines. A step is one
critical section or one check of the session; what the connection, the peer, the
application and the scheduler decide is part of the step. A call of `removeStream`
that a stream operation still has to make stands in `removals`.
-/

namespace Hydracore.Sudoku.Multiplex

open Formats Systems

def maxQueuedBytesPerStream : ℕ := 4194304
def maxFrameSize : ℕ := 262144
def acceptCapacity : ℕ := 256

inductive CloseErr
  | closedPipe
  | eof
  | reset (msg : Bytes)
  | payloadTooLarge (n : ℕ)
  | failure (cause : String)
deriving DecidableEq

structure Stream where
  id : UInt32
  closed : Bool
  localReadClosed : Bool
  localWriteClosed : Bool
  remoteWriteClosed : Bool
  closeErr : Option CloseErr
  readBuf : Bytes
  queue : List Bytes
  queuedBytes : ℕ

def newStream (id : UInt32) : Stream := ⟨id, false, false, false, false, none, [], [], 0⟩

namespace Stream

def closeNoSend (err : CloseErr) (c : Stream) : Stream :=
  if c.closed then c else { c with closed := true, closeErr := c.closeErr.or (some err) }

section

variable (c : Stream)

def closeRemoteWrite : Stream × Bool :=
  if c.closed then (c, false) else ({ c with remoteWriteClosed := true }, c.localWriteClosed)

def close : Stream :=
  { c with
    closed := true, localReadClosed := true, localWriteClosed := true
    closeErr := c.closeErr.or (some .closedPipe)
    readBuf := [], queue := [], queuedBytes := 0 }

def closeWrite : Stream × Bool :=
  if c.closed || c.localWriteClosed then (c, false)
  else ({ c with localWriteClosed := true }, c.remoteWriteClosed || c.localReadClosed)

def closeRead : Stream × Bool :=
  if c.closed || c.localReadClosed then (c, false)
  else ({ c with localReadClosed := true, readBuf := [], queue := [], queuedBytes := 0 }, c.localWriteClosed)

def shut : Bool := c.closed || c.localReadClosed || c.remoteWriteClosed

def full (payload : Bytes) : Bool :=
  !c.shut && decide (c.queuedBytes + payload.length > maxQueuedBytesPerStream)

end

def enqueue (payload : Bytes) (c : Stream) : Stream :=
  if c.shut then c
  else
    let c := { c with queuedBytes := c.queuedBytes + payload.length }
    if c.readBuf.isEmpty && c.queue.isEmpty then { c with readBuf := payload }
    else { c with queue := c.queue ++ [payload] }

def blocked (c : Stream) : Bool := c.readBuf.isEmpty && c.queue.isEmpty && !c.shut

def fill (c : Stream) : Stream :=
  if c.readBuf.isEmpty then { c with readBuf := c.queue.headD [], queue := c.queue.tail } else c

def read (n : ℕ) (c : Stream) : Except CloseErr Bytes × Stream :=
  let c := c.fill
  if c.readBuf.isEmpty && c.shut then
    (.error (if c.closed then c.closeErr.getD .closedPipe else if c.localReadClosed then .closedPipe else .eof), c)
  else
    (.ok (c.readBuf.take n),
      { c with readBuf := c.readBuf.drop n, queuedBytes := c.queuedBytes - (c.readBuf.take n).length })

end Stream

inductive Frame
  | open_ (id : UInt32) (payload : Bytes)
  | data (id : UInt32) (payload : Bytes)
  | close (id : UInt32)
  | reset (id : UInt32) (payload : Bytes)

inductive Incoming
  | frame (f : Frame)
  | failed

inductive Reader
  | idle
  | looking (id : UInt32) (payload : Bytes)
  | admitting (id : UInt32) (payload : Bytes)
  | answering
  | finding (id : UInt32) (payload : Bytes)
  | enqueueing (ref : ℕ) (payload : Bytes)
  | closing (id : UInt32)
  | closingWrite (id : UInt32) (ref : ℕ)
  | resetting (id : UInt32) (payload : Bytes)
  | resettingStream (id : UInt32) (ref : ℕ) (payload : Bytes)
  | removing (id : UInt32)
  | failing
  | ended
deriving DecidableEq

inductive Opening
  | checked (payload : Bytes)
  | numbered (payload : Bytes) (id : UInt32)
  | registered (payload : Bytes) (id : UInt32) (ref : ℕ)
  | sending (id : UInt32) (ref : ℕ)
  | broken (id : UInt32) (ref : ℕ) (err : CloseErr)
  | failed (id : UInt32) (ref : ℕ) (err : CloseErr)
  | removing (id : UInt32)
  | returned (ref : ℕ)
  | refused

/-- Where `closeWithError` stands: the streams it still has to close, the channel, the connection. -/
inductive Closer
  | idle
  | swapped (streams : List ℕ) (err : CloseErr)
  | signalled
  | down
deriving DecidableEq

structure Session where
  streams : Dict UInt32 ℕ
  nextID : UInt32
  heap : List Stream
  acceptCh : Option (List (ℕ × Bytes))
  closer : Closer
  closeErr : Option CloseErr
  opens : List Opening
  reader : Reader
  offers : List (ℕ × Bytes)
  removals : List UInt32
  returned : List ℕ

def start (server : Bool) : Session where
  streams := ∅
  nextID := 0
  heap := []
  acceptCh := if server then some [] else none
  closer := .idle
  closeErr := none
  opens := []
  reader := .idle
  offers := []
  removals := []
  returned := []

namespace Session

section

variable (s : Session)

def isClosed : Bool := s.closer = .signalled ∨ s.closer = .down

def closedErr : CloseErr := s.closeErr.getD .closedPipe

def register (id : UInt32) : Session :=
  { s with streams := s.streams.insert id s.heap.length, heap := s.heap ++ [newStream id] }

def removeStream (id : UInt32) : Session := { s with streams := s.streams.erase id }

def modify (ref : ℕ) (f : Stream → Stream) : Session := { s with heap := s.heap.modify ref f }

def nextStreamID : UInt32 := if s.nextID + 1 = 0 then s.nextID + 2 else s.nextID + 1

def stage (k : ℕ) (o : Opening) : Session := { s with opens := s.opens.set k o }

end

end Session

def isASCIISpace (b : UInt8) : Bool := b = 0x20 ∨ b = 0x0A ∨ b = 0x0D ∨ b = 0x09

def trimASCII (b : Bytes) : Bytes := ((b.dropWhile isASCIISpace).reverse.dropWhile isASCIISpace).reverse

def resetMessage (payload : Bytes) : Bytes :=
  if (trimASCII payload).isEmpty then [0x72, 0x65, 0x73, 0x65, 0x74] else trimASCII payload

inductive Act
  | openStream (payload : Bytes)
  | advance (k : ℕ)
  | write (k : ℕ) (err : Option String)
  | acceptStream
  | offer (i : ℕ)
  | withdraw (i : ℕ)
  | receive (incoming : Incoming)
  | handle
  | shutdown (err : CloseErr) (order : List ℕ)
  | closeNext
  | signal
  | closeConn
  | remove (i : ℕ)
  | close (ref : ℕ)
  | closeWrite (ref : ℕ)
  | closeRead (ref : ℕ)
  | read (ref n : ℕ)

section

variable (s : Session)

def advanceOpen (k : ℕ) : Opening → Option Session
  | .checked payload => some { s.stage k (.numbered payload s.nextStreamID) with nextID := s.nextStreamID }
  | .numbered payload id => some ((s.register id).stage k (.registered payload id s.heap.length))
  | .registered payload id ref =>
    if s.isClosed then some (s.stage k (.failed id ref s.closedErr))
    else if payload.length > maxFrameSize then some (s.stage k (.failed id ref (.payloadTooLarge payload.length)))
    else some (s.stage k (.sending id ref))
  | .broken id ref err => if s.closer = .down then some (s.stage k (.failed id ref err)) else none
  | .failed id ref err => some ((s.modify ref (Stream.closeNoSend err)).stage k (.removing id))
  | .removing id => some ((s.removeStream id).stage k .refused)
  | .sending _ _ | .returned _ | .refused => none

def receiveFrame : Frame → Reader
  | .open_ id payload => if s.acceptCh.isNone || id = 0 then .answering else .looking id payload
  | .data id payload => .finding id payload
  | .close id => .closing id
  | .reset id payload => .resetting id payload

def handleFrame : Reader → Option Session
  | .idle | .ended => none
  | .looking id payload =>
    some { s with reader := if (s.streams.lookup id).isSome then .answering else .admitting id payload }
  | .admitting id payload =>
    some { s.register id with reader := .idle, offers := s.offers ++ [(s.heap.length, payload)] }
  | .answering => some { s with reader := .idle }
  | .finding id payload =>
    match s.streams.lookup id with
    | none => some { s with reader := .idle }
    | some ref => some { s with reader := if payload.isEmpty then .idle else .enqueueing ref payload }
  | .enqueueing ref payload =>
    if s.heap[ref]?.any (·.full payload) then none
    else some { s.modify ref (Stream.enqueue payload) with reader := .idle }
  | .closing id =>
    match s.streams.lookup id with
    | none => some { s with reader := .idle }
    | some ref => some { s with reader := .closingWrite id ref }
  | .closingWrite id ref =>
    let remove := s.heap[ref]?.any fun c => c.closeRemoteWrite.2
    some { s.modify ref (fun c => c.closeRemoteWrite.1) with reader := if remove then .removing id else .idle }
  | .resetting id payload =>
    match s.streams.lookup id with
    | none => some { s with reader := .idle }
    | some ref => some { s with reader := .resettingStream id ref payload }
  | .resettingStream id ref payload =>
    some { s.modify ref (Stream.closeNoSend (.reset (resetMessage payload))) with reader := .removing id }
  | .removing id => some { s.removeStream id with reader := .idle }
  | .failing => if s.closer = .down then some { s with reader := .ended } else none

def operate (ref : ℕ) (f : Stream → Stream × Bool) : Option Session :=
  if ref ∈ s.returned then
    s.heap[ref]?.map fun c =>
      { s.modify ref (fun c => (f c).1) with removals := if (f c).2 then s.removals ++ [c.id] else s.removals }
  else none

def step : Act → Option Session
  | .openStream payload => if s.isClosed then some s else some { s with opens := s.opens ++ [.checked payload] }
  | .advance k => s.opens[k]?.bind (advanceOpen s k)
  | .write k err =>
    match s.opens[k]? with
    | some (.sending id ref) =>
      match err with
      | some cause => some (s.stage k (.broken id ref (.failure cause)))
      | none =>
        if s.closer = .down then none
        else some { s.stage k (.returned ref) with returned := s.returned ++ [ref] }
    | _ => none
  | .acceptStream =>
    match s.acceptCh with
    | some (event :: rest) => some { s with acceptCh := some rest, returned := s.returned ++ [event.1] }
    | _ => none
  | .offer i =>
    match s.offers[i]?, s.acceptCh with
    | some event, some queue =>
      if queue.length < acceptCapacity then
        some { s with acceptCh := some (queue ++ [event]), offers := s.offers.eraseIdx i }
      else none
    | _, _ => none
  | .withdraw i =>
    if s.isClosed then
      s.offers[i]?.bind fun event => s.heap[event.1]?.map fun c =>
        { s.modify event.1 (Stream.closeNoSend .closedPipe) with
          offers := s.offers.eraseIdx i, removals := s.removals ++ [c.id] }
    else none
  | .receive incoming =>
    if s.reader = .idle then
      match incoming with
      | .failed => some { s with reader := .failing }
      | .frame f => some { s with reader := receiveFrame s f }
    else none
  | .handle => handleFrame s s.reader
  | .shutdown err order =>
    if s.closer = .idle ∧ order.Perm (s.streams.entries.map Sigma.snd) then
      some { s with streams := ∅, closer := .swapped order err, closeErr := s.closeErr.or (some err) }
    else none
  | .closeNext =>
    match s.closer with
    | .swapped (ref :: rest) err => some { s.modify ref (Stream.closeNoSend err) with closer := .swapped rest err }
    | _ => none
  | .signal =>
    match s.closer with
    | .swapped [] _ => some { s with closer := .signalled }
    | _ => none
  | .closeConn => if s.closer = .signalled then some { s with closer := .down } else none
  | .remove i => s.removals[i]?.map fun id => { s.removeStream id with removals := s.removals.eraseIdx i }
  | .close ref => operate s ref fun c => if c.closed then (c, false) else (c.close, true)
  | .closeWrite ref => operate s ref Stream.closeWrite
  | .closeRead ref => operate s ref Stream.closeRead
  | .read ref n =>
    if s.heap[ref]?.any Stream.blocked then none else operate s ref fun c => ((c.read n).2, false)

end

end Hydracore.Sudoku.Multiplex
