import Hydracore.Formats.Buffers
import Hydracore.Systems.Runs

/-!
Two `failoverConn`s and the connections that join them: `Read`, `Write` and `RestoreConn`.

A call that waits in `awaitConn` goes on when another connection has been restored. What follows an error kept in `err` is
not ruled out.
-/

namespace Hydracore.Failover.Stream

open Formats Function

def bufferSize : ℕ := 10

structure Wire where
  sent : Bytes
  broken : Option ℕ
  taken : ℕ

namespace Wire

def available (w : Wire) : Bytes := (w.sent.take (w.broken.getD w.sent.length)).drop w.taken

def write (w : Wire) (b : Bytes) : Wire := { w with sent := w.sent ++ b }

def read (w : Wire) (n : ℕ) : Wire := { w with taken := w.taken + n }

theorem write_sent (w : Wire) (b : Bytes) : (w.write b).sent = w.sent ++ b := rfl

theorem read_taken (w : Wire) (n : ℕ) : (w.read n).taken = w.taken + n := rfl

theorem update_write_taken (wires : ℕ → Wire) (c : ℕ) (b : Bytes) (d : ℕ) :
    (update wires c ((wires c).write b) d).taken = (wires d).taken := by
  rcases eq_or_ne d c with rfl | hd
  · rw [update_self, write]
  · rw [update_of_ne hd]

theorem update_read_sent (wires : ℕ → Wire) (c n d : ℕ) :
    (update wires c ((wires c).read n) d).sent = (wires d).sent := by
  rcases eq_or_ne d c with rfl | hd
  · rw [update_self, read]
  · rw [update_of_ne hd]

end Wire

/-- `closed` says that the endpoint has closed its connection, `reading` and `writing` that no read and no write of it has
failed, `restoring` is the connection `RestoreConn` is at work on. `call` is what the last `Write` was given while it has
not succeeded, `gaveUp` that it returned an error.

`written` has what each `Write` that succeeded was given, `returned` what `Read` returned, `received` is the number of frames
read and `greeting` the number of them when the endpoint sent its index on a connection. -/
structure Endpoint where
  conn : ℕ
  closed : Bool
  reading : Bool
  writing : Bool
  restoring : Option ℕ
  readIndex : UInt32
  readBuffer : Bytes
  writeIndex : UInt32
  writeBuffers : ℕ → Bytes
  call : Option Bytes
  gaveUp : Bool
  written : List Bytes
  returned : Bytes
  received : ℕ
  greeting : ℕ → Option ℕ

/-- `writeFail` and `adoptFail` say how many bytes were written before the error, `readFail` how many bytes of a payload
were read before it. -/
inductive Act where
  | write (b : Bytes)
  | writeOk
  | writeFail (k : ℕ)
  | giveUp
  | readOk (size : ℕ)
  | readFail (j : ℕ)
  | restore (c : ℕ)
  | adopt
  | adoptFail (k : ℕ)
  | abandon

def replay (writeBuffers : ℕ → Bytes) (writeIndex : UInt32) : ℕ → UInt32 → Option (List Bytes)
  | room, index =>
    if index = writeIndex then some []
    else match room with
      | 0 => none
      | room + 1 =>
        (replay writeBuffers writeIndex room (index + 1)).map (writeBuffers (index.toNat % bufferSize) :: ·)

structure Ends where
  me : Endpoint
  out : ℕ → Wire
  inn : ℕ → Wire

namespace Endpoint

def start : Endpoint :=
  { conn := 0, closed := false, reading := true, writing := true, restoring := none, readIndex := 0, readBuffer := [],
    writeIndex := 0, writeBuffers := fun _ => [], call := none, gaveUp := false, written := [], returned := [],
    received := 0, greeting := fun c => if c = 0 then some 0 else none }

def calls (e : Endpoint) : List Bytes := e.written ++ e.call.toList

def take (e : Endpoint) (size : ℕ) : Endpoint :=
  { e with
    returned := e.returned ++ e.readBuffer.take size
    readBuffer := e.readBuffer.drop size
    readIndex := e.readIndex + 1 }

end Endpoint

namespace Ends

section

variable (x : Ends)

def incoming : Bytes := if x.me.closed then [] else (x.inn x.me.conn).available

def write (c : ℕ) (b : Bytes) : Ends := { x with out := update x.out c ((x.out c).write b) }

def read (c n : ℕ) : Ends := { x with inn := update x.inn c ((x.inn c).read n) }

def set (e : Endpoint) : Ends := { x with me := e }

def saved (b : Bytes) : Endpoint :=
  { x.me with
    writeBuffers := update x.me.writeBuffers (x.me.writeIndex.toNat % bufferSize) b
    writeIndex := x.me.writeIndex + 1
    call := none
    written := x.me.written ++ [b] }

def readOk (size : ℕ) : Option Ends :=
  if ¬ x.me.readBuffer.isEmpty then some (x.set (x.me.take size))
  else
    let got := x.incoming
    let n := ofBigEndian (got.take 2)
    if got.length < 2 then none
    else if n = 0 then some (x.set { x.me with reading := false, closed := true })
    else if got.length < 2 + n then none
    else
      let e := { x.me with readBuffer := (got.drop 2).take n, received := x.me.received + 1 }
      some ((x.read x.me.conn (2 + n)).set (e.take size))

def readFail (j : ℕ) : Option Ends :=
  let got := x.incoming
  if ¬ x.me.readBuffer.isEmpty ∨ (0 < j ∧ (got.length < 2 + j ∨ ofBigEndian (got.take 2) ≤ j)) then none
  else some (x.set { x.me with readBuffer := (got.drop 2).take j, reading := false })

def restore (c : ℕ) : Ends :=
  (x.write c (bigEndian 4 x.me.readIndex.toNat)).set { x.me with
      closed := true
      restoring := some c
      greeting := update x.me.greeting c (some x.me.received) }

def index (c : ℕ) : Option UInt32 :=
  let got := (x.inn c).available
  if got.length < 4 then none else some (UInt32.ofNat (ofBigEndian (got.take 4)))

/-- The rest of `RestoreConn`, with `k` bytes of the lost frames written before an error if there is one. -/
def adopt (c : ℕ) (k : Option ℕ) : Option Ends :=
  (x.index c).bind fun index =>
    match replay x.me.writeBuffers x.me.writeIndex bufferSize index, k with
    | none, none => some ((x.read c 4).set { x.me with restoring := none })
    | none, some _ => none
    | some buffers, none => some (((x.read c 4).write c (frames buffers)).set
        { x.me with conn := c, closed := false, reading := true, writing := true, restoring := none })
    | some buffers, some k =>
      some (((x.read c 4).write c ((frames buffers).take k)).set { x.me with restoring := none })

def act : Act → Option Ends
  | .write b =>
    if b = [] ∨ (x.me.call.isSome ∧ ¬ x.me.gaveUp) then none
    else some (x.set { x.me with call := some b, gaveUp := false })
  | .writeOk =>
    match x.me.call with
    | none => none
    | some b =>
      if x.me.restoring.isSome ∨ x.me.gaveUp ∨ ¬ x.me.writing ∨ x.me.closed then none
      else some ((x.write x.me.conn (frame b)).set (x.saved b))
  | .writeFail k =>
    match x.me.call with
    | none => none
    | some b =>
      if x.me.restoring.isSome ∨ x.me.gaveUp ∨ ¬ x.me.writing ∨ (x.me.closed ∧ 0 < k) then none
      else some ((x.write x.me.conn ((frame b).take k)).set { x.me with writing := false })
  | .giveUp =>
    if x.me.restoring.isSome ∨ x.me.call.isNone ∨ x.me.writing then none
    else some (x.set { x.me with gaveUp := true })
  | .readOk size => if x.me.restoring.isSome ∨ ¬ x.me.reading then none else x.readOk size
  | .readFail j => if x.me.restoring.isSome ∨ ¬ x.me.reading then none else x.readFail j
  | .restore c => if x.me.restoring.isSome ∨ (x.me.greeting c).isSome then none else some (x.restore c)
  | .adopt => x.me.restoring.bind fun c => x.adopt c none
  | .adoptFail k => x.me.restoring.bind fun c => x.adopt c (some k)
  | .abandon => if x.me.restoring.isNone then none else some (x.set { x.me with restoring := none })

end

end Ends

inductive Side where
  | client
  | server
  deriving DecidableEq

def Side.other : Side → Side
  | client => server
  | server => client

structure Link where
  ends : Side → Endpoint
  wires : Side → ℕ → Wire

inductive Step where
  | act (s : Side) (a : Act)
  | cut (s : Side) (c k : ℕ)

namespace Link

def start : Link := ⟨fun _ => .start, fun _ _ => ⟨[], none, 0⟩⟩

def view (l : Link) (s : Side) : Ends := ⟨l.ends s, l.wires s, l.wires s.other⟩

def put (l : Link) (s : Side) (x : Ends) : Link :=
  ⟨update l.ends s x.me, update (update l.wires s x.out) s.other x.inn⟩

def step (l : Link) : Step → Option Link
  | .act s a => ((l.view s).act a).map (l.put s)
  | .cut s c k =>
    let w := l.wires s c
    if w.broken.isSome ∨ k < w.taken ∨ w.sent.length < k then none
    else some { l with
      wires := update l.wires s (update (l.wires s) c { w with broken := some k }) }

end Link

end Hydracore.Failover.Stream
