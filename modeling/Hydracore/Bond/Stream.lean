import Hydracore.Bond.Ratios
import Hydracore.Systems.Runs

/-!
One direction of a bonded connection: `Write` on one side and `Read` on the other, over one stream of bytes for each
underlying connection.

The underlying connections take and give any number of bytes at a time.
-/

namespace Hydracore.Bond

open Formats

/-- `data` is the slice given to `Write` with its spare capacity, of which `total` bytes are sent; `chunk` is what is left
of the current chunk. -/
inductive Writer where
  | returned (n : ℕ) (failed : Bool)
  | header (b spare : Bytes)
  | sending (data : Bytes) (total : ℕ) (conn : ℕ) (chunk : Bytes) (rest : List ℤ)
  | panicked

inductive Reader where
  | idle
  | header (size : ℕ) (got : Bytes)
  | copying (size : ℕ) (conn : ℕ) (wanted : ℕ) (rest : List ℤ)

/-- `written` has all that was given to `Write`, `received` all that `Read` returned. -/
structure Pipe where
  streams : ℕ → Bytes
  writer : Writer
  reader : Reader
  readBuffer : Bytes
  written : Bytes
  received : Bytes
  eof : Bool

/-- `push` and `pull` are the return of a write and of a read of the underlying connection in use. -/
inductive Act where
  | write (b spare : Bytes)
  | push (n : ℕ)
  | read (size : ℕ)
  | pull (n : ℕ)

def nextChunk (data : Bytes) (total : ℕ) (conn : ℕ) : List ℤ → Writer
  | [] => .returned total false
  | len :: rest =>
    if len = 0 then nextChunk data total (conn + 1) rest
    else if len < 0 ∨ data.length < total + len then .panicked
    else .sending data total conn ((data.drop total).take len.toNat) rest

def frameHeader (b : Bytes) : Bytes := bigEndian 2 (b.length % 2 ^ 16)

namespace Pipe

def start : Pipe := ⟨fun _ => [], .returned 0 false, .idle, [], [], [], false⟩

def deliver (p : Pipe) (size : ℕ) : Pipe :=
  if p.readBuffer.isEmpty then { p with reader := .idle, eof := p.eof || size ≠ 0 }
  else { p with
    reader := .idle
    received := p.received ++ p.readBuffer.take size
    readBuffer := p.readBuffer.drop size }

def nextCopy (p : Pipe) (size : ℕ) (conn : ℕ) : List ℤ → Pipe
  | [] => p.deliver size
  | len :: rest =>
    if len ≤ 0 then nextCopy p size (conn + 1) rest
    else { p with reader := .copying size conn len.toNat rest }

def send (p : Pipe) (conn : ℕ) (b : Bytes) : Pipe :=
  { p with streams := Function.update p.streams conn (p.streams conn ++ b) }

def take (p : Pipe) (conn : ℕ) (n : ℕ) : Pipe :=
  { p with streams := Function.update p.streams conn ((p.streams conn).drop n) }

def push (uploadRatios : List UInt8) (p : Pipe) (n : ℕ) : Option Pipe :=
  match p.writer with
  | .header b spare =>
    if 2 < n then none
    else some { p.send 0 ((frameHeader b).take n) with
      writer := nextChunk (b ++ spare) 0 0 (splitByRatios b.length uploadRatios) }
  | .sending data total conn chunk rest =>
    if chunk.length < n then none
    else if n = 0 then some { p with writer := .returned total true }
    else some { p.send conn (chunk.take n) with
      writer := if n = chunk.length then nextChunk data (total + n) (conn + 1) rest
        else .sending data (total + n) conn (chunk.drop n) rest }
  | _ => none

def pull (downloadRatios : List UInt8) (p : Pipe) (n : ℕ) : Option Pipe :=
  match p.reader with
  | .header size got =>
    if 2 < got.length + n ∨ (p.streams 0).length < n then none
    else
      let got := got ++ (p.streams 0).take n
      if got.length = 2 then
        some ((p.take 0 n).nextCopy size 0 (splitByRatios (ofBigEndian got) downloadRatios))
      else some { p.take 0 n with reader := .header size got }
  | .copying size conn wanted rest =>
    if wanted < n ∨ (p.streams conn).length < n then none
    else
      let p' := { p.take conn n with readBuffer := p.readBuffer ++ (p.streams conn).take n }
      some (if n = wanted then p'.nextCopy size (conn + 1) rest
        else { p' with reader := .copying size conn (wanted - n) rest })
  | .idle => none

def step (uploadRatios downloadRatios : List UInt8) (p : Pipe) : Act → Option Pipe
  | .write b spare =>
    match p.writer with
    | .returned _ _ => some { p with writer := .header b spare, written := p.written ++ b }
    | _ => none
  | .push n => p.push uploadRatios n
  | .read size =>
    match p.reader with
    | .idle =>
      some (if p.readBuffer.isEmpty then { p with reader := .header size [] } else p.deliver size)
    | _ => none
  | .pull n => p.pull downloadRatios n

end Pipe

end Hydracore.Bond
