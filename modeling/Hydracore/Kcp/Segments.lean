import Hydracore.Formats.BigEndian

namespace Hydracore.Kcp

open Formats List

structure DataSegment where
  conv : UInt16
  option : UInt8
  timestamp : UInt32
  number : UInt32
  sendingNext : UInt32
  payload : Bytes
  timeout : UInt32
  transmit : UInt32

structure AckSegment where
  conv : UInt16
  option : UInt8
  receivingWindow : UInt32
  receivingNext : UInt32
  timestamp : UInt32
  numberList : List UInt32

structure CmdOnlySegment where
  conv : UInt16
  cmd : UInt8
  option : UInt8
  sendingNext : UInt32
  receivingNext : UInt32
  peerRTO : UInt32

inductive Segment where
  | data (seg : DataSegment)
  | ack (seg : AckSegment)
  | cmdOnly (seg : CmdOnlySegment)

def commandACK : UInt8 := 0
def commandData : UInt8 := 1
def commandTerminate : UInt8 := 2
def commandPing : UInt8 := 3

def segmentOptionClose : UInt8 := 1

def ackNumberLimit : ℕ := 128

def newDataSegment (number : UInt32) (payload : Bytes) : DataSegment := ⟨0, 0, 0, number, 0, payload, 0, 0⟩

namespace AckSegment

def new : AckSegment := ⟨0, 0, 0, 0, 0, []⟩

def putTimestamp (s : AckSegment) (timestamp : UInt32) : AckSegment :=
  if timestamp - s.timestamp < 0x7FFFFFFF then { s with timestamp := timestamp } else s

def putNumber (s : AckSegment) (number : UInt32) : AckSegment := { s with numberList := s.numberList ++ [number] }

def isFull (s : AckSegment) : Bool := s.numberList.length = ackNumberLimit

def isEmpty (s : AckSegment) : Bool := s.numberList.isEmpty

@[simp] theorem numberList_putTimestamp (s : AckSegment) (timestamp : UInt32) :
    (s.putTimestamp timestamp).numberList = s.numberList := by
  unfold putTimestamp
  split_ifs
  · rfl
  · rfl

end AckSegment

def putUint32 (x : UInt32) : Bytes := bigEndian 4 x.toNat

def uint16 (b : Bytes) : UInt16 := UInt16.ofNat (ofBigEndian (b.take 2))

def uint32 (b : Bytes) : UInt32 := UInt32.ofNat (ofBigEndian (b.take 4))

def uint32s : ℕ → Bytes → List UInt32
  | 0, _ => []
  | count + 1, b => uint32 b :: uint32s count (b.drop 4)

namespace Segment

def conversation : Segment → UInt16
  | data seg => seg.conv
  | ack seg => seg.conv
  | cmdOnly seg => seg.conv

def serialize : Segment → Bytes
  | data seg =>
    bigEndian 2 seg.conv.toNat ++ [commandData, seg.option] ++ putUint32 seg.timestamp ++ putUint32 seg.number ++
      putUint32 seg.sendingNext ++ bigEndian 2 seg.payload.length ++ seg.payload
  | ack seg =>
    bigEndian 2 seg.conv.toNat ++ [commandACK, seg.option] ++ putUint32 seg.receivingWindow ++
      putUint32 seg.receivingNext ++ putUint32 seg.timestamp ++ [UInt8.ofNat seg.numberList.length] ++
      seg.numberList.flatMap putUint32
  | cmdOnly seg =>
    bigEndian 2 seg.conv.toNat ++ [seg.cmd, seg.option] ++ putUint32 seg.sendingNext ++
      putUint32 seg.receivingNext ++ putUint32 seg.peerRTO

end Segment

def parseData (capacity : ℕ) (conv : UInt16) (opt : UInt8) (data : Bytes) : Option (Segment × Bytes) :=
  let dataLen := (uint16 (data.drop 12)).toNat
  if data.length < 15 then none
  else if (data.drop 14).length < dataLen then none
  else some (.data ⟨conv, opt, uint32 data, uint32 (data.drop 4), uint32 (data.drop 8),
    ((data.drop 14).take dataLen).take capacity, 0, 0⟩, (data.drop 14).drop dataLen)

def parseAck (conv : UInt16) (opt : UInt8) (buf : Bytes) : Option (Segment × Bytes) :=
  let count := (buf.getD 12 0).toNat
  if buf.length < 13 then none
  else if (buf.drop 13).length < count * 4 then none
  else some (.ack ⟨conv, opt, uint32 buf, uint32 (buf.drop 4), uint32 (buf.drop 8), uint32s count (buf.drop 13)⟩,
    (buf.drop 13).drop (count * 4))

def parseCmdOnly (conv : UInt16) (cmd opt : UInt8) (buf : Bytes) : Option (Segment × Bytes) :=
  if buf.length < 12 then none
  else some (.cmdOnly ⟨conv, cmd, opt, uint32 buf, uint32 (buf.drop 4), uint32 (buf.drop 8)⟩, buf.drop 12)

def readSegment (capacity : ℕ) (buf : Bytes) : Option (Segment × Bytes) :=
  let conv := uint16 buf
  let cmd := buf.getD 2 0
  let opt := buf.getD 3 0
  if buf.length < 4 then none
  else if cmd = commandData then parseData capacity conv opt (buf.drop 4)
  else if cmd = commandACK then parseAck conv opt (buf.drop 4)
  else parseCmdOnly conv cmd opt (buf.drop 4)

def readSegments (capacity : ℕ) : ℕ → Bytes → List Segment
  | 0, _ => []
  | fuel + 1, b =>
    if b.isEmpty then []
    else match readSegment capacity b with
      | none => []
      | some (seg, extra) => seg :: readSegments capacity fuel extra

def readDatagram (capacity : ℕ) (b : Bytes) : List Segment := readSegments capacity b.length b

@[simp] theorem putUint32_length (x : UInt32) : (putUint32 x).length = 4 := bigEndian_length _ _

theorem uint32_putUint32 (x : UInt32) (b : Bytes) : uint32 (putUint32 x ++ b) = x := by
  rw [uint32, take_left' (putUint32_length x), putUint32, ofBigEndian_uint32, UInt32.ofNat_toNat]

theorem drop_putUint32 (x : UInt32) (b : Bytes) : (putUint32 x ++ b).drop 4 = b := drop_left' (putUint32_length x)

theorem uint16_bigEndian {n : ℕ} (h : n < 65536) (b : Bytes) : (uint16 (bigEndian 2 n ++ b)).toNat = n := by
  rw [uint16, take_left' (bigEndian_length _ _), ofBigEndian_bigEndian (by omega), UInt16.toNat_ofNat']
  omega

theorem uint32s_flatMap (numbers : List UInt32) : uint32s numbers.length (numbers.flatMap putUint32) = numbers := by
  induction numbers with
  | nil => rfl
  | cons number numbers ih =>
    rw [flatMap_cons, length_cons, uint32s, uint32_putUint32, drop_putUint32, ih]

theorem flatMap_putUint32_length (numbers : List UInt32) :
    (numbers.flatMap putUint32).length = numbers.length * 4 := by
  induction numbers with
  | nil => rfl
  | cons number numbers ih =>
    rw [flatMap_cons, length_append, ih, putUint32_length, length_cons]
    omega

namespace Segment

def Fits (capacity : ℕ) : Segment → Prop
  | data seg => 0 < seg.payload.length ∧ seg.payload.length ≤ capacity ∧ seg.payload.length < 65536
  | ack seg => seg.numberList.length ≤ ackNumberLimit
  | cmdOnly seg => seg.cmd ≠ commandData ∧ seg.cmd ≠ commandACK

def received : Segment → Segment
  | data seg => data { seg with timeout := 0, transmit := 0 }
  | seg => seg

end Segment

variable {capacity : ℕ}

theorem readSegment_header (conv : UInt16) (cmd opt : UInt8) (b : Bytes) :
    readSegment capacity (bigEndian 2 conv.toNat ++ [cmd, opt] ++ b) =
      if cmd = commandData then parseData capacity conv opt b
      else if cmd = commandACK then parseAck conv opt b
      else parseCmdOnly conv cmd opt b := by
  have hlength : ¬(bigEndian 2 conv.toNat ++ [cmd, opt] ++ b).length < 4 := by
    simp only [length_append, bigEndian_length, length_cons]
    omega
  have hconv : uint16 (bigEndian 2 conv.toNat ++ ([cmd, opt] ++ b)) = conv := by
    apply UInt16.toNat_inj.mp
    exact uint16_bigEndian conv.toNat_lt _
  have hcmd : (bigEndian 2 conv.toNat ++ ([cmd, opt] ++ b)).getD 2 0 = cmd := by
    simp
  have hopt : (bigEndian 2 conv.toNat ++ ([cmd, opt] ++ b)).getD 3 0 = opt := by
    rw [getD_eq_getElem?_getD, getElem?_append_right (by simp)]
    simp
  have hdrop : (bigEndian 2 conv.toNat ++ [cmd, opt] ++ b).drop 4 = b := drop_left' rfl
  unfold readSegment
  simp only [hlength, hdrop, if_false]
  rw [append_assoc, hconv, hcmd, hopt]

theorem parseData_payload {conv : UInt16} {opt : UInt8} {timestamp number sendingNext : UInt32} {payload : Bytes}
    (hpos : 0 < payload.length) (hcapacity : payload.length ≤ capacity) (hlt : payload.length < 65536) :
    parseData capacity conv opt (putUint32 timestamp ++ (putUint32 number ++ (putUint32 sendingNext ++
      (bigEndian 2 payload.length ++ payload)))) =
        some (.data ⟨conv, opt, timestamp, number, sendingNext, payload, 0, 0⟩, []) := by
  have hlength : ¬(putUint32 timestamp ++ (putUint32 number ++ (putUint32 sendingNext ++
      (bigEndian 2 payload.length ++ payload)))).length < 15 := by
    simp
    omega
  have hdrop (x y z : UInt32) (b : Bytes) : (putUint32 x ++ (putUint32 y ++ (putUint32 z ++ b))).drop 12 = b := by
    rw [← append_assoc, ← append_assoc]
    exact drop_left' rfl
  have hrest : (putUint32 timestamp ++ (putUint32 number ++ (putUint32 sendingNext ++
      (bigEndian 2 payload.length ++ payload)))).drop 14 = payload := by
    exact drop_left' (bigEndian_length _ _)
  have hsecond : (putUint32 timestamp ++ (putUint32 number ++ (putUint32 sendingNext ++
      (bigEndian 2 payload.length ++ payload)))).drop 8 =
        putUint32 sendingNext ++ (bigEndian 2 payload.length ++ payload) := by
    rw [← append_assoc]
    exact drop_left' rfl
  unfold parseData
  simp only [hlength, hrest, hdrop, uint16_bigEndian hlt, if_false, Nat.lt_irrefl, take_length, drop_length,
    take_of_length_le hcapacity, uint32_putUint32, drop_putUint32, hsecond]

theorem parseAck_numbers {conv : UInt16} {opt : UInt8} {receivingWindow receivingNext timestamp : UInt32}
    {numbers : List UInt32} (h : numbers.length ≤ ackNumberLimit) :
    parseAck conv opt (putUint32 receivingWindow ++ (putUint32 receivingNext ++ (putUint32 timestamp ++
      ([UInt8.ofNat numbers.length] ++ numbers.flatMap putUint32)))) =
        some (.ack ⟨conv, opt, receivingWindow, receivingNext, timestamp, numbers⟩, []) := by
  have hcount : (UInt8.ofNat numbers.length).toNat = numbers.length := by
    rw [ackNumberLimit] at h
    rw [UInt8.toNat_ofNat']
    omega
  have hrest (b : Bytes) (x : UInt8) : (putUint32 receivingWindow ++ (putUint32 receivingNext ++ (putUint32 timestamp ++
      ([x] ++ b)))).drop 13 = b := by
    rfl
  have hget (b : Bytes) (x : UInt8) : (putUint32 receivingWindow ++ (putUint32 receivingNext ++ (putUint32 timestamp ++
      ([x] ++ b)))).getD 12 0 = x := by
    rfl
  have hsecond (b : Bytes) : (putUint32 receivingWindow ++ (putUint32 receivingNext ++ b)).drop 8 = b := by
    rw [← append_assoc]
    exact drop_left' rfl
  unfold parseAck
  simp only [hget, hcount, hrest, flatMap_putUint32_length, Nat.lt_irrefl, if_false, uint32s_flatMap, uint32_putUint32,
    drop_putUint32, hsecond]
  simp only [length_append, putUint32_length, length_singleton, flatMap_putUint32_length]
  rw [if_neg (by omega), drop_of_length_le (flatMap_putUint32_length _).le]

theorem readSegment_serialize {seg : Segment} (h : seg.Fits capacity) :
    readSegment capacity seg.serialize = some (seg.received, []) := by
  cases seg with
  | data seg =>
    obtain ⟨hpos, hcapacity, hlt⟩ := h
    simp only [Segment.serialize, append_assoc]
    rw [← append_assoc, readSegment_header, if_pos rfl]
    exact parseData_payload hpos hcapacity hlt
  | ack seg =>
    simp only [Segment.serialize, append_assoc]
    rw [← append_assoc, readSegment_header, if_neg (by decide), if_pos rfl]
    exact parseAck_numbers h
  | cmdOnly seg =>
    simp only [Segment.serialize, append_assoc]
    rw [← append_assoc, readSegment_header, if_neg h.1, if_neg h.2, parseCmdOnly]
    have hsecond : (putUint32 seg.sendingNext ++ (putUint32 seg.receivingNext ++ putUint32 seg.peerRTO)).drop 8 =
        putUint32 seg.peerRTO := by
      rw [← append_assoc]
      exact drop_left' rfl
    have hlast := uint32_putUint32 seg.peerRTO []
    rw [append_nil] at hlast
    rw [uint32_putUint32, drop_putUint32, uint32_putUint32, hsecond, hlast]
    simp [Segment.received]

theorem readDatagram_serialize {seg : Segment} (h : seg.Fits capacity) :
    readDatagram capacity seg.serialize = [seg.received] := by
  have hread := readSegment_serialize h
  unfold readDatagram
  cases hb : seg.serialize with
  | nil =>
    rw [hb] at hread
    cases hread
  | cons x b =>
    rw [hb] at hread
    rw [length_cons, readSegments, hread]
    cases b.length <;> rfl

end Hydracore.Kcp
