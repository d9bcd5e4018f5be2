import Hydracore.Call.Protocol
import Hydracore.Systems.Dicts

namespace Hydracore.Call.Datagrams

open Formats Systems

structure PacketConn where
  id : UInt32
  destStr : Bytes
deriving DecidableEq

namespace PacketConn

def frame (pc : PacketConn) (b : Bytes) : Frame := ⟨pc.id, msgUDP, udpPayload pc.destStr b⟩

end PacketConn

structure Joiner where
  conns : List PacketConn
  distinct : (conns.map PacketConn.id).Nodup
  short : ∀ pc ∈ conns, pc.destStr.length ≤ 255
  nonzero : ∀ pc ∈ conns, 0 ∉ pc.destStr

/-- A `creatorUDPConn`, with the datagrams it was given and the results of its reads so far. -/
structure CreatorUDPConn where
  id : UInt32
  addr : Bytes
  readBuf : Bytes
  closed : Bool
  delivered : List Bytes
  reads : List Bytes

def newCreatorUDPConn (id : UInt32) (addr : Bytes) : CreatorUDPConn := ⟨id, addr, [], false, [], []⟩

namespace CreatorUDPConn

def deliver (payload : Bytes) (uc : CreatorUDPConn) : CreatorUDPConn :=
  if uc.closed then uc
  else { uc with readBuf := uc.readBuf ++ payload, delivered := uc.delivered ++ [payload] }

def read (n : ℕ) (uc : CreatorUDPConn) : CreatorUDPConn :=
  { uc with readBuf := uc.readBuf.drop n, reads := uc.reads ++ [uc.readBuf.take n] }

def discardBuffered (uc : CreatorUDPConn) : CreatorUDPConn := { uc with readBuf := [] }

def shut (uc : CreatorUDPConn) : CreatorUDPConn := { uc with closed := true }

end CreatorUDPConn

inductive Task
  | handling (connID : UInt32) (payload : Bytes)
  | creating (connID : UInt32) (addr data : Bytes)
  | delivering (ref : ℕ) (data : Bytes)
  | removing (ref : ℕ)
  | discarding (ref : ℕ)
  | finished

/-- `conns` are the connections the creator ever made, `callback` the frames of the running callback. -/
structure Relay where
  written : List (UInt32 × Bytes)
  wire : List Bytes
  closedIDs : List UInt32
  callback : List Frame
  udpClients : Dict UInt32 ℕ
  conns : List CreatorUDPConn
  handlers : List (ℕ × Bytes)
  tasks : List Task

def start : Relay where
  written := []
  wire := []
  closedIDs := []
  callback := []
  udpClients := ∅
  conns := []
  handlers := []
  tasks := []

inductive Act
  | write (pc : PacketConn) (b : Bytes)
  | closePacket (pc : PacketConn)
  | arrive (frames : List ℕ)
  | dispatch
  | advance (i : ℕ)
  | read (ref n : ℕ)
  | close (ref : ℕ)

namespace Relay

def modify (s : Relay) (ref : ℕ) (f : CreatorUDPConn → CreatorUDPConn) : Relay :=
  { s with conns := s.conns.modify ref f }

def stage (s : Relay) (i : ℕ) (t : Task) : Relay := { s with tasks := s.tasks.set i t }

def spawn (s : Relay) (t : Task) : Relay := { s with tasks := s.tasks ++ [t] }

end Relay

def handleCreatorMessage (s : Relay) (f : Frame) : Relay :=
  if f.msgType = msgUDP then s.spawn (.handling f.connID f.payload)
  else if f.msgType = msgClose then
    match s.udpClients.lookup f.connID with
    | none => s
    | some ref => { s.modify ref CreatorUDPConn.shut with udpClients := s.udpClients.erase f.connID }
  else s

def advanceTask (s : Relay) (i : ℕ) : Task → Option Relay
  | .handling connID payload =>
    match parseUDP payload with
    | none => some (s.stage i .finished)
    | some (addr, data) =>
      match s.udpClients.lookup connID with
      | some ref => some (s.stage i (.delivering ref data))
      | none => some (s.stage i (.creating connID addr data))
  | .creating connID addr data =>
    -- LoadOrStore
    match s.udpClients.lookup connID with
    | some ref => some (s.stage i (.delivering ref data))
    | none =>
      some { s.stage i (.delivering s.conns.length data) with
        udpClients := s.udpClients.insert connID s.conns.length
        conns := s.conns ++ [newCreatorUDPConn connID addr]
        handlers := s.handlers ++ [(s.conns.length, addr)] }
  | .delivering ref data => some ((s.modify ref (CreatorUDPConn.deliver data)).stage i .finished)
  | .removing ref =>
    s.conns[ref]?.map fun uc =>
      { s.stage i (.discarding ref) with udpClients := s.udpClients.erase uc.id }
  | .discarding ref => some ((s.modify ref CreatorUDPConn.discardBuffered).stage i .finished)
  | .finished => none

def step (j : Joiner) (s : Relay) : Act → Option Relay
  | .write pc b =>
    if pc ∈ j.conns then
      if pc.id ∈ s.closedIDs then some s
      else some { s with written := s.written ++ [(pc.id, b)], wire := s.wire ++ [(pc.frame b).encode] }
    else none
  | .closePacket pc =>
    if pc ∈ j.conns then
      if pc.id ∈ s.closedIDs then some s
      else some { s with closedIDs := pc.id :: s.closedIDs, wire := s.wire ++ [Frame.encode ⟨pc.id, msgClose, []⟩] }
    else none
  | .arrive frames =>
    if s.callback = [] then
      (frames.mapM (s.wire[·]?)).map fun chunk => { s with callback := decodeFrames chunk.flatten }
    else none
  | .dispatch =>
    match s.callback with
    | [] => none
    | f :: rest => some { handleCreatorMessage s f with callback := rest }
  | .advance i => s.tasks[i]?.bind (advanceTask s i)
  | .read ref n =>
    s.conns[ref]?.bind fun uc =>
      if uc.readBuf.isEmpty then if uc.closed then some s else none
      else some (s.modify ref (CreatorUDPConn.read n))
  | .close ref =>
    s.conns[ref]?.map fun uc =>
      if uc.closed then s.spawn (.discarding ref)
      else (s.modify ref CreatorUDPConn.shut).spawn (.removing ref)

end Hydracore.Call.Datagrams
