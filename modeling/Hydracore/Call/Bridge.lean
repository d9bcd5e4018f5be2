import Hydracore.Call.Protocol
import Hydracore.Formats.Pieces
import Hydracore.Systems.Dicts

/-!
One `RelayBridge` whose tunnel is swapped. A goroutine is the list of what it still has
to do; a step is one access to what the goroutines share, and what the network, the
targets, the application and the scheduler decide is part of the step.

`epoch` counts the tunnels published so far. Every operation carries the epoch of the
connection, association or dial it is done for, and what it does to the tunnel and to
the two tables is written down in `events`.
-/

namespace Hydracore.Call.Swap

open Formats Systems

def relayFlowWindowBytes : ℕ := 262144
def relayFlowChunkBytes : ℕ := 16384

inductive Mode
  | joiner
  | creator
deriving DecidableEq

inductive Table
  | conns
  | udpClients
deriving DecidableEq

inductive Kind
  | tunnelConn
  | target
  | udpClient
  | creatorUDPConn
  | egress
deriving DecidableEq

def Kind.table : Kind → Table
  | .tunnelConn | .target => .conns
  | .udpClient | .creatorUDPConn | .egress => .udpClients

inductive DialErr
  | closedPipe
  | refused (msg : Bytes)

structure Conn where
  kind : Kind
  id : UInt32
  addr : Bytes
  born : ℕ
  closed : Bool
  held : Bool
  flowControl : Bool
  sendCredit : ℕ
  readBuf : Bytes
  rdy : Option (Option DialErr)

def newConn (kind : Kind) (id : UInt32) (addr : Bytes) (born : ℕ) (flowControl : Bool) : Conn :=
  ⟨kind, id, addr, born, false, false, flowControl, if flowControl then relayFlowWindowBytes else 0, [], none⟩

namespace Conn

def hold (c : Conn) : Conn := { c with held := true }

def ready (err : Option DialErr) (c : Conn) : Conn := { c with rdy := c.rdy.or (some err) }

def remoteClosed (c : Conn) : Conn := { c.ready (some .closedPipe) with closed := true }

def closeLocal (c : Conn) : Conn := { c.remoteClosed with readBuf := [] }

def addSendCredit (credit : ℕ) (c : Conn) : Conn :=
  if !c.flowControl || c.closed then c
  else { c with sendCredit := min relayFlowWindowBytes (c.sendCredit + credit) }

def takeSendCredit (size : ℕ) (c : Conn) : Conn := { c with sendCredit := c.sendCredit - size }

def buffer (payload : Bytes) (c : Conn) : Conn := { c with readBuf := c.readBuf ++ payload }

def consume (n : ℕ) (c : Conn) : Conn := { c with readBuf := c.readBuf.drop n }

end Conn

inductive Instr
  | send (f : Frame)
  | sendVia (via : ℕ) (f : Frame)
  | store (table : Table) (id : UInt32) (ref : ℕ)
  | delete (table : Table) (id : UInt32)
  | hold (ref : ℕ)
  | awaitReady (ref : ℕ)
  | takeSendCredit (ref size : ℕ)
  | returnReadCredit (ref n : ℕ)
  | dialTCP (id : UInt32) (addr : Bytes)
  | readTarget (ref : ℕ)
  | handleUDP (id : UInt32) (payload : Bytes)
  | acceptUDP (id : UInt32) (addr : Bytes)
  | dialUDP (id : UInt32) (addr : Bytes)
  | storeEgress (id : UInt32) (ref : ℕ)
  | readEgress (ref : ℕ)
  | close (ref : ℕ)
  | handle (f : Frame)
  | unlock
  | closeAll

structure Op where
  cause : ℕ
  instr : Instr

/-- `after` says that the `SwapTunnel` that brought the tunnel of the event has returned. -/
inductive Event
  | sent (via cause : ℕ) (f : Frame) (after : Bool)
  | removed (table : Table) (id : UInt32) (entry cause : ℕ) (after : Bool)
deriving DecidableEq

inductive Sweep
  | idle
  | due
  | ranging (table : Table)
deriving DecidableEq

/-- `unvisited` are the keys that were in the table all the time since `Range` began. -/
structure RelayBridge where
  mode : Mode
  acceptHandler : Bool
  udpAcceptHandler : Bool
  nextGeneration : UInt64
  swaps : List UInt64
  tunnelGeneration : UInt64
  epoch : ℕ
  returned : Bool
  flowControl : Bool
  locked : Bool
  sweep : Sweep
  unvisited : List UInt32
  visited : List UInt32
  conns : Dict UInt32 ℕ
  udpClients : Dict UInt32 ℕ
  nextID : UInt32
  objs : List Conn
  tasks : List (List Op)
  events : List Event

def start (mode : Mode) (acceptHandler udpAcceptHandler flowControl : Bool) : RelayBridge where
  mode := mode
  acceptHandler := acceptHandler
  udpAcceptHandler := udpAcceptHandler
  nextGeneration := 1
  swaps := []
  tunnelGeneration := 1
  epoch := 0
  returned := true
  flowControl := flowControl
  locked := false
  sweep := .idle
  unvisited := []
  visited := []
  conns := ∅
  udpClients := ∅
  nextID := 0
  objs := []
  tasks := []
  events := []

namespace RelayBridge

section

variable (s : RelayBridge)

def lookup : Table → UInt32 → Option ℕ
  | .conns, id => s.conns.lookup id
  | .udpClients, id => s.udpClients.lookup id

def keys : Table → List UInt32
  | .conns => s.conns.keys
  | .udpClients => s.udpClients.keys

def insert (table : Table) (id : UInt32) (ref : ℕ) : RelayBridge :=
  match table with
  | .conns => { s with conns := s.conns.insert id ref }
  | .udpClients => { s with udpClients := s.udpClients.insert id ref }

def erase (table : Table) (id : UInt32) : RelayBridge :=
  let s := if s.sweep = .ranging table then { s with unvisited := s.unvisited.filter (· ≠ id) } else s
  match table with
  | .conns => { s with conns := s.conns.erase id }
  | .udpClients => { s with udpClients := s.udpClients.erase id }

def modify (ref : ℕ) (f : Conn → Conn) : RelayBridge := { s with objs := s.objs.modify ref f }

def create (c : Conn) : RelayBridge := { s with objs := s.objs ++ [c] }

def goto (i : ℕ) (ops : List Op) : RelayBridge := { s with tasks := s.tasks.set i ops }

def next (i cause : ℕ) (rest : List Op) (instrs : List Instr) : RelayBridge :=
  s.goto i (instrs.map (Op.mk cause) ++ rest)

def spawn (cause : ℕ) (instrs : List Instr) : RelayBridge :=
  { s with tasks := s.tasks ++ [instrs.map (Op.mk cause)] }

def record (e : Event) : RelayBridge := { s with events := s.events ++ [e] }

def swapReturned (epoch : ℕ) : Bool := decide (epoch < s.epoch) || s.returned

def recordEntry (cause : ℕ) (table : Table) (id : UInt32) : RelayBridge :=
  match (s.lookup table id).bind (s.objs[·]?) with
  | none => s
  | some c => s.record (.removed table id c.born cause (s.swapReturned c.born))

def store (cause : ℕ) (table : Table) (id : UInt32) (ref : ℕ) : RelayBridge :=
  (s.recordEntry cause table id).insert table id ref

def delete (cause : ℕ) (table : Table) (id : UInt32) : RelayBridge :=
  (s.recordEntry cause table id).erase table id

end

end RelayBridge

def Conn.writeInstrs (c : Conn) (ref : ℕ) (b : Bytes) : List Instr :=
  match c.kind with
  | .tunnelConn =>
    if c.flowControl then
      (List.range ((b.length + relayFlowChunkBytes - 1) / relayFlowChunkBytes)).flatMap fun k =>
        [.takeSendCredit ref (chunk relayFlowChunkBytes b k).length,
          .send ⟨c.id, msgData, chunk relayFlowChunkBytes b k⟩]
    else [.send ⟨c.id, msgData, b⟩]
  | .udpClient => [.send ⟨c.id, msgUDP, udpPayload c.addr b⟩]
  | .creatorUDPConn => [.send ⟨c.id, msgUDPReply, b⟩]
  | .target | .egress => []

def Conn.closeInstrs (c : Conn) : List Instr :=
  match c.kind with
  | .tunnelConn => [.send ⟨c.id, msgClose, []⟩, .delete .conns c.id]
  | .udpClient => [.delete .udpClients c.id, .send ⟨c.id, msgClose, []⟩]
  | .creatorUDPConn => [.send ⟨c.id, msgClose, []⟩, .delete .udpClients c.id]
  | .target | .egress => []

section

variable (s : RelayBridge)

def deliver (i : ℕ) (rest : List Op) (ref : ℕ) (payload : Bytes) : RelayBridge :=
  match s.objs[ref]? with
  | none => s.goto i rest
  | some c =>
    if c.closed then s.goto i rest
    else if c.flowControl && decide (c.readBuf.length + payload.length > relayFlowWindowBytes) then
      (s.modify ref Conn.closeLocal).next i c.born rest c.closeInstrs
    else (s.modify ref (Conn.buffer payload)).goto i rest

def handleFlowCredit (f : Frame) : RelayBridge :=
  if !s.flowControl || f.connID = 0 || f.payload.length ≠ 4 then s
  else if ofBigEndian f.payload = 0 ∨ ofBigEndian f.payload > relayFlowWindowBytes then s
  else
    match s.lookup .conns f.connID with
    | none => s
    | some ref => s.modify ref fun c => if c.kind = .tunnelConn then c.addSendCredit (ofBigEndian f.payload) else c

def handleJoinerMessage (i : ℕ) (rest : List Op) (f : Frame) : RelayBridge :=
  if f.msgType = msgUDPReply then s.goto i rest
  else
    match s.lookup .conns f.connID with
    | none => s.goto i rest
    | some ref =>
      if f.msgType = msgConnectOK then (s.modify ref (Conn.ready none)).goto i rest
      else if f.msgType = msgConnectErr then (s.modify ref (Conn.ready (some (.refused f.payload)))).goto i rest
      else if f.msgType = msgData then deliver s i rest ref f.payload
      else if f.msgType = msgClose then
        (s.modify ref Conn.remoteClosed).next i s.epoch rest [.delete .conns f.connID]
      else s.goto i rest

/-- `LoadAndDelete` of an entry that a `MsgClose` names, and the closing of what it held. -/
def closeEntry (table : Table) (id : UInt32) : RelayBridge :=
  match s.lookup table id with
  | none => s
  | some ref => (s.delete s.epoch table id).modify ref Conn.remoteClosed

def handleCreatorMessage (i : ℕ) (rest : List Op) (f : Frame) : RelayBridge :=
  if f.msgType = msgConnect then
    if s.acceptHandler then
      (s.create (newConn .tunnelConn f.connID f.payload s.epoch s.flowControl)).next i s.epoch rest
        [.store .conns f.connID s.objs.length, .send ⟨f.connID, msgConnectOK, []⟩, .hold s.objs.length]
    else (s.spawn s.epoch [.dialTCP f.connID f.payload]).goto i rest
  else if f.msgType = msgUDP then (s.spawn s.epoch [.handleUDP f.connID f.payload]).goto i rest
  else if f.msgType = msgData then
    match (s.lookup .conns f.connID).bind fun ref => s.objs[ref]?.map fun c => (ref, c) with
    | none => s.next i s.epoch rest [.send ⟨f.connID, msgClose, []⟩]
    | some (ref, c) => if c.kind = .tunnelConn then deliver s i rest ref f.payload else s.goto i rest
  else if f.msgType = msgClose then
    (closeEntry (closeEntry s .conns f.connID) .udpClients f.connID).goto i rest
  else s.goto i rest

def handleTunnelData (i : ℕ) (rest : List Op) (f : Frame) : RelayBridge :=
  if f.msgType = msgFlowCredit then (handleFlowCredit s f).goto i rest
  else if f.connID = 0 ∧ f.msgType = msgConfig then
    if f.payload.length ≥ 4 ∧ s.mode = .creator then s.next i s.epoch rest [.send ⟨0, msgConfigAck, []⟩]
    else s.goto i rest
  else if f.connID = 0 ∧ f.msgType = msgConfigAck then s.goto i rest
  else
    match s.mode with
    | .joiner => handleJoinerMessage s i rest f
    | .creator => handleCreatorMessage s i rest f

end

inductive Outcome
  | done
  | cancelled
  | failed (msg : Bytes)
  | data (b : Bytes)
  | lastData (b : Bytes)
  | visit (id : UInt32)

def sweepStep (s : RelayBridge) (i : ℕ) (op : Op) (rest : List Op) (outcome : Outcome) : Option RelayBridge :=
  match s.sweep with
  | .idle | .due =>
    some ({ s with sweep := .ranging .conns, unvisited := s.keys .conns, visited := [] }.goto i (op :: rest))
  | .ranging table =>
    match outcome with
    | .visit id =>
      if id ∈ s.visited then none
      else (s.lookup table id).map fun ref =>
        ({ (s.modify ref Conn.closeLocal).erase table id with visited := id :: s.visited }.goto i (op :: rest))
    | _ =>
      if s.unvisited = [] then
        match table with
        | .conns =>
          some ({ s with
            sweep := .ranging .udpClients, unvisited := s.keys .udpClients, visited := [] }.goto i (op :: rest))
        | .udpClients => some ({ s with sweep := .idle, locked := false, returned := true }.goto i rest)
      else none

def runOp (s : RelayBridge) (i : ℕ) (op : Op) (rest : List Op) (outcome : Outcome) : Option RelayBridge :=
  let next (s : RelayBridge) (instrs : List Instr) : Option RelayBridge := some (s.next i op.cause rest instrs)
  match op.instr with
  | .send f => next s [.sendVia s.epoch f]
  | .sendVia via f => next (s.record (.sent via op.cause f (s.swapReturned via))) []
  | .store table id ref => next (s.store op.cause table id ref) []
  | .delete table id => next (s.delete op.cause table id) []
  | .hold ref => next (s.modify ref Conn.hold) []
  | .awaitReady ref =>
    s.objs[ref]?.bind fun c =>
      match outcome with
      | .cancelled => next s [.delete .conns c.id, .send ⟨c.id, msgClose, []⟩]
      | _ => c.rdy.bind fun err => next s (if err.isSome || c.closed then [.delete .conns c.id] else [.hold ref])
  | .takeSendCredit ref size =>
    s.objs[ref]?.bind fun c =>
      if size ≤ c.sendCredit then next (s.modify ref (Conn.takeSendCredit size)) []
      else if c.closed then some (s.goto i []) else none
  | .returnReadCredit ref n =>
    s.objs[ref]?.bind fun c =>
      if !c.flowControl || n = 0 || c.closed then next s []
      else next s [.send ⟨c.id, msgFlowCredit, bigEndian 4 n⟩]
  | .dialTCP id addr =>
    match outcome with
    | .failed msg => next s [.send ⟨id, msgConnectErr, msg⟩]
    | _ =>
      next (s.create (newConn .target id addr op.cause false))
        [.store .conns id s.objs.length, .send ⟨id, msgConnectOK, []⟩, .readTarget s.objs.length]
  | .readTarget ref =>
    s.objs[ref]?.bind fun c =>
      match outcome with
      | .data b =>
        if c.closed then none
        else next s ((if b.isEmpty then [] else [.send ⟨c.id, msgData, b⟩]) ++ [.readTarget ref])
      | .lastData b =>
        if c.closed then none
        else next s [.send ⟨c.id, msgData, b⟩, .send ⟨c.id, msgClose, []⟩, .delete .conns c.id]
      | _ => next s [.send ⟨c.id, msgClose, []⟩, .delete .conns c.id]
  | .handleUDP id payload =>
    match parseUDP payload with
    | none => next s []
    | some (addr, _) =>
      match s.lookup .udpClients id with
      | some _ => next s []
      | none => next s [if s.udpAcceptHandler then .acceptUDP id addr else .dialUDP id addr]
  | .acceptUDP id addr =>
    -- LoadOrStore
    match s.lookup .udpClients id with
    | some _ => next s []
    | none =>
      next ((s.create (newConn .creatorUDPConn id addr op.cause false)).insert .udpClients id s.objs.length)
        [.hold s.objs.length]
  | .dialUDP id addr =>
    match outcome with
    | .failed _ => next s []
    | _ => next (s.create (newConn .egress id addr op.cause false)) [.storeEgress id s.objs.length]
  | .storeEgress id ref =>
    match s.lookup .udpClients id with
    | some _ => next s [.close ref]
    | none => next ((s.insert .udpClients id ref).spawn op.cause [.readEgress ref]) []
  | .readEgress ref =>
    s.objs[ref]?.bind fun c =>
      match outcome with
      | .data b => if c.closed then none else next s [.send ⟨c.id, msgUDPReply, b⟩, .readEgress ref]
      | _ => next s [.send ⟨c.id, msgClose, []⟩, .delete .udpClients c.id, .close ref]
  | .close ref => next (s.modify ref Conn.closeLocal) []
  | .handle f => some (handleTunnelData s i rest f)
  | .unlock => next { s with locked := false } []
  | .closeAll => sweepStep s i op rest outcome

inductive Act
  | dialContext (destination : Bytes)
  | listenPacket (destination : Bytes)
  | write (ref : ℕ) (b : Bytes)
  | read (ref n : ℕ)
  | close (ref : ℕ)
  | onData (generation : UInt64) (data : Bytes)
  | onClose (generation : UInt64)
  | swapTunnel
  | publish (k : ℕ) (flowControl : Bool)
  | run (i : ℕ) (outcome : Outcome)

def call (s : RelayBridge) (ref : ℕ) (f : Conn → RelayBridge) : Option RelayBridge :=
  s.objs[ref]?.bind fun c => if c.held then if c.closed then some s else some (f c) else none

def step (s : RelayBridge) : Act → Option RelayBridge
  | .dialContext destination =>
    let id := s.nextID + 1
    some ({ s with nextID := id }.create (newConn .tunnelConn id destination s.epoch s.flowControl)
      |>.spawn s.epoch
        [.store .conns id s.objs.length, .send ⟨id, msgConnect, destination⟩, .awaitReady s.objs.length])
  | .listenPacket destination =>
    let id := s.nextID + 1
    some ({ s with nextID := id }.create (newConn .udpClient id destination s.epoch false)
      |>.spawn s.epoch [.store .udpClients id s.objs.length, .hold s.objs.length])
  | .write ref b => call s ref fun c => s.spawn c.born (c.writeInstrs ref b)
  | .read ref n =>
    call s ref fun c =>
      (s.modify ref (Conn.consume n)).spawn c.born
        (if c.kind = .tunnelConn then [.returnReadCredit ref (c.readBuf.take n).length] else [])
  | .close ref => call s ref fun c => (s.modify ref Conn.closeLocal).spawn c.born c.closeInstrs
  | .onData generation data =>
    if s.locked then none
    else if generation = s.tunnelGeneration then
      some ({ s with locked := true }.spawn s.epoch ((decodeFrames data).map Instr.handle ++ [Instr.unlock]))
    else some s
  | .onClose generation =>
    if s.locked then none
    else if generation = s.tunnelGeneration then some ({ s with locked := true }.spawn s.epoch [.closeAll])
    else some s
  | .swapTunnel =>
    some { s with nextGeneration := s.nextGeneration + 1, swaps := s.swaps ++ [s.nextGeneration + 1] }
  | .publish k flowControl =>
    if s.locked then none
    else s.swaps[k]?.map fun generation =>
      { s with
        locked := true, swaps := s.swaps.eraseIdx k, tunnelGeneration := generation, flowControl := flowControl
        epoch := s.epoch + 1, returned := false, sweep := .due }.spawn (s.epoch + 1) [.closeAll]
  | .run i outcome =>
    match s.tasks[i]? with
    | some (op :: rest) => runOp s i op rest outcome
    | _ => none

end Hydracore.Call.Swap
