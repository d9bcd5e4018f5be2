import Hydracore.Kcp.Segments

namespace Hydracore.Kcp

open Formats

structure Config where
  mtu : UInt32
  tti : UInt32
  uplinkCapacity : UInt32
  downlinkCapacity : UInt32
  congestion : Bool
  writeBufferSize : UInt32

namespace Config

section

variable (c : Config)

def getMTUValue : UInt32 := if c.mtu = 0 then 1350 else c.mtu

def getTTIValue : UInt32 := if c.tti = 0 then 50 else c.tti

def getUplinkCapacityValue : UInt32 := if c.uplinkCapacity = 0 then 12 else c.uplinkCapacity

def getDownlinkCapacityValue : UInt32 := if c.downlinkCapacity = 0 then 100 else c.downlinkCapacity

def getWriteBufferSize : UInt32 :=
  if c.writeBufferSize = 0 then 2 * 1024 * 1024 else c.writeBufferSize * 1024 * 1024

def inFlightSize (capacity : UInt32) : UInt32 :=
  let size := capacity * 1024 * 1024 / c.getMTUValue / (1000 / c.getTTIValue)
  if size < 8 then 8 else size

def getSendingInFlightSize : UInt32 := c.inFlightSize c.getUplinkCapacityValue

def getReceivingInFlightSize : UInt32 := c.inFlightSize c.getDownlinkCapacityValue

def getSendingBufferSize : UInt32 := c.getWriteBufferSize / c.getMTUValue

end

end Config

structure RoundTripInfo where
  variation : UInt32
  srtt : UInt32
  rto : UInt32
  minRtt : UInt32
  updatedTimestamp : UInt32

namespace RoundTripInfo

section

variable (info : RoundTripInfo)

def updatePeerRTO (rto current : UInt32) : RoundTripInfo :=
  if current - info.updatedTimestamp < 3000 then info else { info with updatedTimestamp := current, rto := rto }

def smooth (rtt : UInt32) : RoundTripInfo :=
  if info.srtt = 0 then { info with srtt := rtt, variation := rtt / 2 }
  else
    let delta := if info.srtt > rtt then info.srtt - rtt else rtt - info.srtt
    let srtt := (7 * info.srtt + rtt) / 8
    { info with variation := (3 * info.variation + delta) / 4, srtt := if srtt < info.minRtt then info.minRtt else srtt }

def update (rtt current : UInt32) : RoundTripInfo :=
  if rtt > 0x7FFFFFFF then info
  else
    let next := info.smooth rtt
    let rto := if next.minRtt < 4 * next.variation then next.srtt + 4 * next.variation else next.srtt + next.variation
    let bounded := if rto > 10000 then 10000 else rto
    { next with rto := bounded * 5 / 4, updatedTimestamp := current }

def timeoutOf : UInt32 := if info.rto = 0 then 100 else info.rto

end

end RoundTripInfo

structure SendingWindow where
  cache : List DataSegment
  totalInFlightSize : UInt32

namespace SendingWindow

def push (sw : SendingWindow) (number : UInt32) (b : Bytes) : SendingWindow :=
  { sw with cache := sw.cache ++ [newDataSegment number b] }

def clear (sw : SendingWindow) (una : UInt32) : SendingWindow :=
  { sw with cache := sw.cache.dropWhile fun seg => seg.number < una }

def hurry (number rto : UInt32) : List DataSegment → List DataSegment
  | [] => []
  | seg :: rest =>
    if number = seg.number ∨ number - seg.number > 0x7FFFFFFF then seg :: rest
    else (if seg.transmit > 0 ∧ seg.timeout > rto / 3 then { seg with timeout := seg.timeout - rto / 3 } else seg) ::
      hurry number rto rest

def handleFastAck (sw : SendingWindow) (number rto : UInt32) : SendingWindow :=
  { sw with cache := hurry number rto sw.cache }

structure Flushed where
  cache : List DataSegment
  totalInFlightSize : UInt32
  lost : UInt32
  inFlightSize : UInt32
  out : List DataSegment

def Flushed.send (acc : Flushed) (seg sent : DataSegment) : Flushed :=
  { cache := acc.cache ++ [sent]
    totalInFlightSize := if seg.transmit = 0 then acc.totalInFlightSize + 1 else acc.totalInFlightSize
    lost := if seg.transmit = 0 then acc.lost else acc.lost + 1
    inFlightSize := acc.inFlightSize + 1
    out := acc.out ++ [sent] }

def timed (current rto : UInt32) (seg : DataSegment) : DataSegment :=
  { seg with timeout := current + rto, timestamp := current, transmit := seg.transmit + 1 }

/-- The visitor of `Flush`; `stamp` is what the writer puts into a segment before it goes out. -/
def visit (current rto maxInFlightSize : UInt32) (stamp : DataSegment → DataSegment) :
    List DataSegment → Flushed → Flushed
  | [], acc => acc
  | seg :: rest, acc =>
    if current - seg.timeout ≥ 0x7FFFFFFF then
      visit current rto maxInFlightSize stamp rest { acc with cache := acc.cache ++ [seg] }
    else
      let next := acc.send seg (stamp (timed current rto seg))
      if next.inFlightSize < maxInFlightSize then visit current rto maxInFlightSize stamp rest next
      else { next with cache := next.cache ++ rest }

def flush (sw : SendingWindow) (current rto maxInFlightSize : UInt32) (stamp : DataSegment → DataSegment) : Flushed :=
  visit current rto maxInFlightSize stamp sw.cache ⟨[], sw.totalInFlightSize, 0, 0, []⟩

def removeFrom (number : UInt32) : List DataSegment → Option (List DataSegment)
  | [] => none
  | seg :: rest =>
    if seg.number > number then none
    else if seg.number = number then some rest
    else (removeFrom number rest).map (seg :: ·)

def remove (sw : SendingWindow) (number : UInt32) : Option SendingWindow :=
  (removeFrom number sw.cache).map fun cache =>
    { cache := cache
      totalInFlightSize := if sw.totalInFlightSize > 0 then sw.totalInFlightSize - 1 else sw.totalInFlightSize }

end SendingWindow

structure SendingWorker where
  window : SendingWindow
  firstUnacknowledged : UInt32
  nextNumber : UInt32
  remoteNextNumber : UInt32
  controlWindow : UInt32
  firstUnacknowledgedUpdated : Bool
  closed : Bool

namespace SendingWorker

def new (config : Config) : SendingWorker :=
  { window := ⟨[], 0⟩
    firstUnacknowledged := 0
    nextNumber := 0
    remoteNextNumber := 32
    controlWindow := config.getSendingInFlightSize
    firstUnacknowledgedUpdated := false
    closed := false }

def findFirstUnacknowledged (w : SendingWorker) : SendingWorker :=
  let first := match w.window.cache with
    | [] => w.nextNumber
    | seg :: _ => seg.number
  { w with
    firstUnacknowledged := first
    firstUnacknowledgedUpdated := w.firstUnacknowledgedUpdated || w.firstUnacknowledged ≠ first }

def processReceivingNext (w : SendingWorker) (nextNumber : UInt32) : SendingWorker :=
  findFirstUnacknowledged { w with window := w.window.clear nextNumber }

def processAck (w : SendingWorker) (number : UInt32) : SendingWorker × Bool :=
  if number - w.firstUnacknowledged > 0x7FFFFFFF ∨ number - w.nextNumber < 0x7FFFFFFF then (w, false)
  else match w.window.remove number with
    | none => (w, false)
    | some window => (findFirstUnacknowledged { w with window := window }, true)

def processAcks : SendingWorker → List UInt32 → UInt32 → Bool → SendingWorker × UInt32 × Bool
  | w, [], maxack, maxackRemoved => (w, maxack, maxackRemoved)
  | w, number :: numbers, maxack, maxackRemoved =>
    let (next, removed) := w.processAck number
    if maxack < number then next.processAcks numbers number removed else next.processAcks numbers maxack maxackRemoved

section

variable (w : SendingWorker)

def raiseRemote (receivingWindow : UInt32) : SendingWorker :=
  if w.remoteNextNumber < receivingWindow then { w with remoteNextNumber := receivingWindow } else w

def processSegment (current : UInt32) (seg : AckSegment) (rto : UInt32) : SendingWorker × Option UInt32 :=
  if w.closed then (w, none)
  else
    let received := (w.raiseRemote seg.receivingWindow).processReceivingNext seg.receivingNext
    if seg.isEmpty then (received, none)
    else
      let (acked, maxack, maxackRemoved) := received.processAcks seg.numberList 0 false
      if maxackRemoved then
        ({ acked with window := acked.window.handleFastAck maxack rto },
          if current - seg.timestamp < 10000 then some (current - seg.timestamp) else none)
      else (acked, none)

def push (windowSize : UInt32) (b : Bytes) : Option SendingWorker :=
  if w.closed then none
  else if UInt32.ofNat w.window.cache.length > windowSize then none
  else some { w with window := w.window.push w.nextNumber b, nextNumber := w.nextNumber + 1 }

def stamp (conv : UInt16) (option : UInt8) (seg : DataSegment) : DataSegment :=
  { seg with conv := conv, sendingNext := w.firstUnacknowledged, option := option }

def onPacketLoss (config : Config) (rto lossRate : UInt32) : SendingWorker :=
  if config.congestion = false ∨ rto = 0 then w
  else
    let moved := if lossRate ≥ 15 then 3 * w.controlWindow / 4
      else if lossRate ≤ 5 then w.controlWindow + w.controlWindow / 4
      else w.controlWindow
    let raised := if moved < 16 then 16 else moved
    let bound := 2 * config.getSendingInFlightSize
    { w with controlWindow := if raised > bound then bound else raised }

def cwnd (config : Config) : UInt32 :=
  let size := config.getSendingInFlightSize
  let room := w.remoteNextNumber - w.firstUnacknowledged
  let allowed := if size > room then room else size
  (if config.congestion ∧ allowed > w.controlWindow then w.controlWindow else allowed) * 20

end

structure Flush where
  worker : SendingWorker
  out : List DataSegment
  updated : Bool

def flush (w : SendingWorker) (config : Config) (conv : UInt16) (option : UInt8) (current rto : UInt32) : Flush :=
  if w.closed then ⟨w, [], false⟩
  else if w.window.cache.isEmpty then
    ⟨{ w with firstUnacknowledgedUpdated := false }, [], w.firstUnacknowledgedUpdated⟩
  else
    let flushed := w.window.flush current rto (w.cwnd config) (w.stamp conv option)
    let worker : SendingWorker :=
      { w with window := ⟨flushed.cache, flushed.totalInFlightSize⟩, firstUnacknowledgedUpdated := false }
    if flushed.inFlightSize > 0 ∧ flushed.totalInFlightSize ≠ 0 then
      ⟨worker.onPacketLoss config rto (flushed.lost * 100 / flushed.totalInFlightSize), flushed.out, false⟩
    else ⟨worker, flushed.out, false⟩

def closeWrite (w : SendingWorker) : SendingWorker := { w with window := w.window.clear 0xFFFFFFFF }

def release (w : SendingWorker) : SendingWorker :=
  { w with window := { w.window with cache := [] }, closed := true }

end SendingWorker

structure AckEntry where
  number : UInt32
  timestamp : UInt32
  nextFlush : UInt32

structure AckList where
  entries : List AckEntry
  dirty : Bool

namespace AckList

def add (l : AckList) (number timestamp : UInt32) : AckList := ⟨l.entries ++ [⟨number, timestamp, 0⟩], true⟩

def clear (l : AckList) (una : UInt32) : AckList :=
  let entries := l.entries.filter fun entry => ¬entry.number < una
  ⟨entries, l.dirty || entries.length < l.entries.length⟩

structure Flushing where
  entries : List AckEntry
  dirty : Bool
  seg : AckSegment
  flushCandidates : List UInt32
  out : List AckSegment

def pause (rto : UInt32) : UInt32 := if rto / 2 < 20 then 20 else rto / 2

def flushEntry (current rto : UInt32) (acc : Flushing) (entry : AckEntry) : Flushing :=
  if entry.nextFlush > current then
    { acc with
      entries := acc.entries ++ [entry]
      flushCandidates := if acc.flushCandidates.length < 128 then acc.flushCandidates ++ [entry.number]
        else acc.flushCandidates }
  else
    let seg := (acc.seg.putNumber entry.number).putTimestamp entry.timestamp
    let entries := acc.entries ++ [{ entry with nextFlush := current + pause rto }]
    if seg.isFull then { acc with entries := entries, dirty := false, seg := .new, out := acc.out ++ [seg] }
    else { acc with entries := entries, seg := seg }

def addCandidate (seg : AckSegment) (number : UInt32) : AckSegment := if seg.isFull then seg else seg.putNumber number

def flush (l : AckList) (current rto : UInt32) : AckList × List AckSegment :=
  let acc := l.entries.foldl (flushEntry current rto) ⟨[], l.dirty, .new, [], []⟩
  if acc.dirty || !acc.seg.isEmpty then (⟨acc.entries, false⟩, acc.out ++ [acc.flushCandidates.foldl addCandidate acc.seg])
  else (⟨acc.entries, acc.dirty⟩, acc.out)

end AckList

/-- `window` has the segments by their numbers; `leftOver` is nil when it is empty. -/
structure ReceivingWorker where
  leftOver : List Bytes
  window : List DataSegment
  acklist : AckList
  nextNumber : UInt32

namespace ReceivingWorker

def new : ReceivingWorker := ⟨[], [], ⟨[], false⟩, 0⟩

section

variable (w : ReceivingWorker)

def find (number : UInt32) : Option DataSegment := w.window.find? fun seg => seg.number = number

def has (number : UInt32) : Bool := (w.find number).isSome

def processSendingNext (number : UInt32) : ReceivingWorker :=
  { w with acklist := w.acklist.clear number }

def processSegment (windowSize : UInt32) (seg : DataSegment) : ReceivingWorker :=
  if seg.number - w.nextNumber ≥ windowSize then w
  else
    { w with
      acklist := (w.acklist.clear seg.sendingNext).add seg.number seg.timestamp
      window := if w.has seg.number then w.window else w.window ++ [seg] }

end

def drain : ℕ → ReceivingWorker → List Bytes → ReceivingWorker × List Bytes
  | 0, w, mb => (w, mb)
  | fuel + 1, w, mb =>
    match w.find w.nextNumber with
    | none => (w, mb)
    | some seg =>
      drain fuel { w with
        window := w.window.eraseP fun seg => seg.number = w.nextNumber
        nextNumber := w.nextNumber + 1 } (mb ++ [seg.payload])

def flush (w : ReceivingWorker) (windowSize : UInt32) (conv : UInt16) (option : UInt8) (current rto : UInt32) :
    ReceivingWorker × List AckSegment :=
  let (acklist, out) := w.acklist.flush current rto
  ({ w with acklist := acklist }, out.map fun seg =>
    { seg with
      conv := conv
      receivingNext := w.nextNumber
      receivingWindow := w.nextNumber + windowSize
      option := option })

def release (w : ReceivingWorker) : ReceivingWorker := { w with leftOver := [] }

end ReceivingWorker

def splitBytes : List Bytes → ℕ → List Bytes × Bytes
  | [], _ => ([], [])
  | buffer :: mb, size =>
    if (buffer.drop size).isEmpty then
      let (left, out) := splitBytes mb (size - buffer.length)
      (left, buffer.take size ++ out)
    else (buffer.drop size :: mb, buffer.take size)

end Hydracore.Kcp
