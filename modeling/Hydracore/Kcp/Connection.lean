import Hydracore.Kcp.Workers
import Hydracore.Systems.Runs

/-!
Two KCP connections over a network that keeps every datagram it was given and hands any of them over at any time. Each
call is a goroutine; its actions are the sections it runs under a lock, its atomic loads and stores, and its uses of
`leftOver`, which no lock protects.
-/

namespace Hydracore.Kcp

open Formats

inductive State where
  | active
  | readyToClose
  | peerClosed
  | terminating
  | peerTerminating
  | terminated
  deriving DecidableEq

/-- The buffers of the sing library: what a new one can hold, and how many bytes `ReadFrom` reports for a reader that
has so many left. -/
structure Buffers where
  capacity : ℕ
  readFrom : ℕ → ℕ
  readFrom_le : ∀ n, readFrom n ≤ n
  readFrom_le_capacity : ∀ n, readFrom n ≤ capacity
  capacity_lt : capacity < 65536

structure Settings where
  config : Config
  conversation : UInt16
  mss : ℕ

def Settings.new (config : Config) (conversation : UInt16) (overhead : UInt32) : Settings :=
  ⟨config, conversation, (config.getMTUValue - overhead - 18).toNat⟩

inductive StateAction where
  | handleOption (opt : UInt8)
  | peerTerminates
  | close
  | setState (state : State)
  | closeWrite
  | goTerminate

inductive WriteAction where
  | check (b : Bytes)
  | chunk (rest : Bytes) (totalWritten : ℕ)
  | push (buffer rest : Bytes) (totalWritten : ℕ)
  | notPushed (buffer rest : Bytes) (totalWritten : ℕ)
  | waitForDataOutput (buffer rest : Bytes) (totalWritten : ℕ)

inductive ReadAction where
  | check (size : ℕ)
  | readMultiBuffer (size : ℕ)
  | drain (size : ℕ)
  | split (size : ℕ) (mb : List Bytes)
  | nothing (size : ℕ)
  | waitForDataInput (size : ℕ)

inductive PingAction where
  | firstUnacknowledged (current : UInt32) (cmd : UInt8)
  | nextNumber (current : UInt32) (cmd : UInt8) (sendingNext : UInt32)
  | timeout (current : UInt32) (cmd : UInt8) (sendingNext receivingNext : UInt32)
  | write (current : UInt32) (cmd : UInt8) (sendingNext receivingNext peerRTO : UInt32)

inductive WorkerAction where
  | processData (seg : DataSegment)
  | timeout (current : UInt32) (seg : AckSegment)
  | processAck (current : UInt32) (seg : AckSegment) (rto : UInt32)
  | processReceivingNext (nextNumber : UInt32)
  | processSendingNext (number : UInt32)
  | updatePeerRTO (rto current : UInt32)
  | releaseSending
  | releaseReceiving

inductive UpdateStage where
  | terminated
  | idle
  | readyToClose
  | isEmpty
  | terminating
  | peerTerminating
  | closing
  | flushReceiving
  | flushSending
  | lastPing

inductive Action where
  | state (a : StateAction)
  | write (a : WriteAction)
  | read (a : ReadAction)
  | ping (a : PingAction)
  | worker (a : WorkerAction)
  | input (current : UInt32) (segments : List Segment)
  | update (stage : UpdateStage) (current : UInt32)

/-- The fields after the workers are the history: the buffers that were pushed, the results of `Write`, the bytes `Read`
returned, and whether the workers were closed and released. -/
structure Connection where
  state : State
  stateBeginTime : UInt32
  lastIncomingTime : UInt32
  lastPingTime : UInt32
  roundTrip : RoundTripInfo
  sendingWorker : SendingWorker
  receivingWorker : ReceivingWorker
  accepted : List Bytes
  written : List ℕ
  returned : Bytes
  writeClosed : Bool
  released : Bool

structure Effect where
  conn : Connection
  next : List Action := []
  spawned : List (List Action) := []
  out : List Segment := []

namespace Connection

def new (settings : Settings) : Connection :=
  { state := .active
    stateBeginTime := 0
    lastIncomingTime := 0
    lastPingTime := 0
    roundTrip := ⟨0, 0, 100, settings.config.getTTIValue, 0⟩
    sendingWorker := .new settings.config
    receivingWorker := .new
    accepted := []
    written := []
    returned := []
    writeClosed := false
    released := false }

def option (c : Connection) : UInt8 := if c.state = .readyToClose then segmentOptionClose else 0

variable (settings : Settings) (buffers : Buffers) (now : UInt32) (timedOut : Bool)

def setStates (states : List State) : List Action := states.map fun state => .state (.setState state)

def onPeerClosed : State → List State
  | .readyToClose => [.terminating]
  | .active => [.peerClosed]
  | _ => []

def onTerminate : State → List State
  | .active | .peerClosed => [.peerTerminating]
  | .readyToClose => [.terminating]
  | .terminating => [.terminated]
  | _ => []

def onClose : State → List State
  | .active => [.readyToClose]
  | .peerClosed => [.terminating]
  | .peerTerminating => [.terminated]
  | _ => []

def afterState : State → List StateAction
  | .active | .readyToClose => []
  | .terminated => [.closeWrite, .goTerminate]
  | _ => [.closeWrite]

section

variable (c : Connection)

def execState : StateAction → Effect
  | .handleOption opt =>
    ⟨c, if opt &&& segmentOptionClose = segmentOptionClose then setStates (onPeerClosed c.state) else [], [], []⟩
  | .peerTerminates => ⟨c, setStates (onTerminate c.state), [], []⟩
  | .close => ⟨c, setStates (onClose c.state), [], []⟩
  | .setState state =>
    ⟨{ c with state := state, stateBeginTime := now }, (afterState state).map .state, [], []⟩
  | .closeWrite => ⟨{ c with sendingWorker := c.sendingWorker.closeWrite, writeClosed := true }, [], [], []⟩
  | .goTerminate => ⟨c, [], [[.worker .releaseSending, .worker .releaseReceiving]], []⟩

def wrote (totalWritten : ℕ) : Effect := ⟨{ c with written := c.written ++ [totalWritten] }, [], [], []⟩

def execWrite : WriteAction → Effect
  | .check b => if c.state ≠ .active then c.wrote 0 else ⟨c, [.write (.chunk b 0)], [], []⟩
  | .chunk rest totalWritten =>
    let n := buffers.readFrom (min settings.mss rest.length)
    if n = 0 then c.wrote totalWritten else ⟨c, [.write (.push (rest.take n) (rest.drop n) totalWritten)], [], []⟩
  | .push buffer rest totalWritten =>
    match c.sendingWorker.push settings.config.getSendingBufferSize buffer with
    | none => ⟨c, [.write (.notPushed buffer rest totalWritten)], [], []⟩
    | some worker =>
      ⟨{ c with sendingWorker := worker, accepted := c.accepted ++ [buffer] },
        [.write (.chunk rest (totalWritten + buffer.length))], [], []⟩
  | .notPushed buffer rest totalWritten =>
    if c.state ≠ .active then c.wrote totalWritten
    else ⟨c, [.write (.waitForDataOutput buffer rest totalWritten)], [], []⟩
  | .waitForDataOutput buffer rest totalWritten =>
    if timedOut then c.wrote totalWritten else ⟨c, [.write (.push buffer rest totalWritten)], [], []⟩

def leave (left : List Bytes) (out : Bytes) : Connection :=
  { c with
    receivingWorker := { c.receivingWorker with
      leftOver := if left.flatten = [] then c.receivingWorker.leftOver else left }
    returned := c.returned ++ out }

def execRead : ReadAction → Effect
  | .check size =>
    if c.state = .readyToClose ∨ c.state = .terminating ∨ c.state = .terminated then ⟨c, [], [], []⟩
    else ⟨c, [.read (.readMultiBuffer size)], [], []⟩
  | .readMultiBuffer size =>
    if c.receivingWorker.leftOver.isEmpty then ⟨c, [.read (.drain size)], [], []⟩
    else
      ⟨{ c with receivingWorker := { c.receivingWorker with leftOver := [] } },
        [.read (.split size c.receivingWorker.leftOver)], [], []⟩
  | .drain size =>
    let (worker, mb) := c.receivingWorker.drain c.receivingWorker.window.length []
    ⟨{ c with receivingWorker := worker }, [.read (.split size mb)], [], []⟩
  | .split size mb =>
    if mb.flatten = [] then ⟨c, [.read (.nothing size)], [], []⟩
    else
      let (left, out) := splitBytes mb size
      ⟨c.leave left out, if out = [] then [.read (.nothing size)] else [], [], []⟩
  | .nothing size =>
    if c.state = .peerTerminating then ⟨c, [], [], []⟩ else ⟨c, [.read (.waitForDataInput size)], [], []⟩
  | .waitForDataInput size => if timedOut then ⟨c, [], [], []⟩ else ⟨c, [.read (.check size)], [], []⟩

def execPing : PingAction → Effect
  | .firstUnacknowledged current cmd =>
    ⟨c, [.ping (.nextNumber current cmd c.sendingWorker.firstUnacknowledged)], [], []⟩
  | .nextNumber current cmd sendingNext =>
    ⟨c, [.ping (.timeout current cmd sendingNext c.receivingWorker.nextNumber)], [], []⟩
  | .timeout current cmd sendingNext receivingNext =>
    ⟨c, [.ping (.write current cmd sendingNext receivingNext c.roundTrip.timeoutOf)], [], []⟩
  | .write current cmd sendingNext receivingNext peerRTO =>
    ⟨{ c with lastPingTime := current }, [], [],
      [.cmdOnly ⟨settings.conversation, cmd, c.option, sendingNext, receivingNext, peerRTO⟩]⟩

def execWorker : WorkerAction → Effect
  | .processData seg =>
    ⟨{ c with receivingWorker := c.receivingWorker.processSegment settings.config.getReceivingInFlightSize seg },
      [], [], []⟩
  | .timeout current seg => ⟨c, [.worker (.processAck current seg c.roundTrip.timeoutOf)], [], []⟩
  | .processAck current seg rto =>
    let (worker, rtt) := c.sendingWorker.processSegment current seg rto
    ⟨{ c with sendingWorker := worker, roundTrip := (rtt.map (c.roundTrip.update · current)).getD c.roundTrip },
      [], [], []⟩
  | .processReceivingNext nextNumber =>
    ⟨{ c with sendingWorker := c.sendingWorker.processReceivingNext nextNumber }, [], [], []⟩
  | .processSendingNext number =>
    ⟨{ c with receivingWorker := c.receivingWorker.processSendingNext number }, [], [], []⟩
  | .updatePeerRTO rto current => ⟨{ c with roundTrip := c.roundTrip.updatePeerRTO rto current }, [], [], []⟩
  | .releaseSending => ⟨{ c with sendingWorker := c.sendingWorker.release, writeClosed := true }, [], [], []⟩
  | .releaseReceiving => ⟨{ c with receivingWorker := c.receivingWorker.release, released := true }, [], [], []⟩

end

def inputActions (current : UInt32) : Segment → List Action
  | .data seg => [.state (.handleOption seg.option), .worker (.processData seg)]
  | .ack seg => [.state (.handleOption seg.option), .worker (.timeout current seg)]
  | .cmdOnly seg =>
    [.state (.handleOption seg.option)] ++ (if seg.cmd = commandTerminate then [.state .peerTerminates] else []) ++
      [.worker (.processReceivingNext seg.receivingNext), .worker (.processSendingNext seg.sendingNext),
        .worker (.updatePeerRTO seg.peerRTO current)]

def execInput (c : Connection) (current : UInt32) : List Segment → Effect
  | [] => ⟨c, [], [], []⟩
  | seg :: segments =>
    if seg.conversation ≠ settings.conversation then ⟨c, [], [], []⟩
    else ⟨c, inputActions current seg ++ [.input current segments], [], []⟩

def changeIf (c : Connection) (condition : Prop) [Decidable condition] (state : State) (next : UpdateStage)
    (current : UInt32) : Effect :=
  ⟨c, (if condition then [.state (.setState state)] else []) ++ [.update next current], [], []⟩

def execUpdate (c : Connection) (current : UInt32) : UpdateStage → Effect
  | .terminated => ⟨c, if c.state = .terminated then [] else [.update .idle current], [], []⟩
  | .idle =>
    ⟨c, (if c.state = .active ∧ current - c.lastIncomingTime ≥ 30000 then [.state .close] else []) ++
      [.update .readyToClose current], [], []⟩
  | .readyToClose =>
    ⟨c, [.update (if c.state = .readyToClose then .isEmpty else .terminating) current], [], []⟩
  | .isEmpty => c.changeIf (c.sendingWorker.window.cache.isEmpty) .terminating .terminating current
  | .terminating =>
    ⟨c, if c.state = .terminating then
        if current - c.stateBeginTime > 8000 then [.state (.setState .terminated)]
        else [.ping (.firstUnacknowledged current commandTerminate)]
      else [.update .peerTerminating current], [], []⟩
  | .peerTerminating =>
    c.changeIf (c.state = .peerTerminating ∧ current - c.stateBeginTime > 4000) .terminating .closing current
  | .closing =>
    c.changeIf (c.state = .readyToClose ∧ current - c.stateBeginTime > 15000) .terminating .flushReceiving current
  | .flushReceiving =>
    let (worker, out) := c.receivingWorker.flush settings.config.getReceivingInFlightSize settings.conversation c.option
      current c.roundTrip.timeoutOf
    ⟨{ c with receivingWorker := worker }, [.update .flushSending current], [], out.map .ack⟩
  | .flushSending =>
    let flush := c.sendingWorker.flush settings.config settings.conversation c.option current c.roundTrip.timeoutOf
    ⟨{ c with sendingWorker := flush.worker },
      (if flush.updated then [.ping (.firstUnacknowledged current commandPing)] else []) ++
        [.update .lastPing current], [], flush.out.map .data⟩
  | .lastPing =>
    ⟨c, if current - c.lastPingTime ≥ 3000 then [.ping (.firstUnacknowledged current commandPing)] else [], [], []⟩

def exec (c : Connection) : Action → Effect
  | .state a => c.execState now a
  | .write a => c.execWrite settings buffers timedOut a
  | .read a => c.execRead timedOut a
  | .ping a => c.execPing settings a
  | .worker a => c.execWorker settings a
  | .input current segments => c.execInput settings current segments
  | .update stage current => c.execUpdate settings current stage

end Connection

structure Side where
  conn : Connection
  tasks : List (List Action)
  sent : List Bytes

def Side.run (s : Side) (settings : Settings) (buffers : Buffers) (task : ℕ) (now : UInt32) (timedOut : Bool) : Option Side :=
  match s.tasks[task]? with
  | some (a :: rest) =>
    let effect := s.conn.exec settings buffers now timedOut a
    some
      { conn := effect.conn
        tasks := s.tasks.set task (effect.next ++ rest) ++ effect.spawned
        sent := s.sent ++ effect.out.map Segment.serialize }
  | _ => none

inductive Call where
  | write (b : Bytes)
  | read (size : ℕ)
  | close
  | tick (current : UInt32)

def Call.task : Call → List Action
  | write b => [.write (.check b)]
  | read size => [.read (.check size)]
  | close => [.state .close]
  | tick current => [.update .terminated current]

inductive Step where
  | call (side : Bool) (call : Call)
  | input (side : Bool) (datagram : ℕ) (current : UInt32)
  | run (side : Bool) (task : ℕ) (now : UInt32) (timedOut : Bool)

abbrev World := Bool → Side

namespace World

variable (settings : Bool → Settings) (buffers : Buffers)

def start : World := fun side => ⟨.new (settings side), [], []⟩

def step (w : World) : Step → Option World
  | .call side call => some (Function.update w side { w side with tasks := (w side).tasks ++ [call.task] })
  | .input side datagram current =>
    (w !side).sent[datagram]?.map fun b => Function.update w side
      { w side with
        conn := { (w side).conn with lastIncomingTime := current }
        tasks := (w side).tasks ++ [[.input current (readDatagram buffers.capacity b)]] }
  | .run side task now timedOut =>
    ((w side).run (settings side) buffers task now timedOut).map (Function.update w side)

end World

def Action.holds : Action → Bool
  | .read (.drain _) | .read (.split _ _) => true
  | _ => false

/-- A `Read` turns to the buffers only while no other one of its side does and the worker is not released. -/
def World.orderly (w : World) : Step → Bool
  | .run side task _ _ =>
    match (w side).tasks[task]? with
    | some (.read (.readMultiBuffer _) :: _) => !(w side).tasks.flatten.any Action.holds && !(w side).conn.released
    | _ => true
  | _ => true

end Hydracore.Kcp
