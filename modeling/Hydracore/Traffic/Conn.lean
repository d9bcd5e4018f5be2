import Hydracore.Formats.BigEndian
import Hydracore.Systems.Runs

/-!
Connections behind a traffic limiter. The same wrappers serve a `net.Conn` and a `net.PacketConn`; the second kind
returns addresses.
-/

namespace Hydracore.Traffic

open Formats Systems

structure Reading (α : Type) where
  data : Bytes
  addr : Option α
  err : Option String

structure Writing where
  n : ℕ
  err : Option String

structure Conn (σ α : Type) where
  read : σ → ℕ → σ × Reading α
  write : σ → Bytes → Option α → σ × Writing

structure Underlying (σ α : Type) extends Conn σ α where
  read_le : ∀ s size, (read s size).2.data.length ≤ size
  write_le : ∀ s p addr, (write s p addr).2.n ≤ p.length

inductive Answer (α : Type)
  | read (reading : Reading α)
  | write (writing : Writing)

structure LimiterCalls (ℓ : Type) where
  can : ℓ → UInt64 → ℓ × Option String
  add : ℓ → UInt64 → ℓ × Option String

/-- `returned` are the answers of the underlying connection and `seen` those of the wrapped one; `torn` says that the
underlying connection has just returned bytes or an address together with an error. -/
structure World (σ ℓ α : Type) where
  conn : σ
  limiter : ℓ
  added : ℕ
  refused : Bool
  torn : Bool
  read : ℕ
  written : ℕ
  returned : List (Answer α)
  seen : List (Answer α)

variable {σ ℓ α : Type}

def World.start (conn : σ) (limiter : ℓ) : World σ ℓ α := ⟨conn, limiter, 0, false, false, 0, 0, [], []⟩

def Underlying.observed (c : Underlying σ α) : Conn (World σ ℓ α) α where
  read s size :=
    let reading := (c.read s.conn size).2
    ({ s with
      conn := (c.read s.conn size).1
      torn := reading.err.isSome && (!reading.data.isEmpty || reading.addr.isSome)
      read := s.read + reading.data.length
      returned := s.returned ++ [.read reading] }, reading)
  write s p addr :=
    let writing := (c.write s.conn p addr).2
    ({ s with
      conn := (c.write s.conn p addr).1
      torn := writing.err.isSome && decide (0 < writing.n)
      written := s.written + writing.n
      returned := s.returned ++ [.write writing] }, writing)

namespace LimiterCalls

def canIn (l : LimiterCalls ℓ) (s : World σ ℓ α) (n : ℕ) : World σ ℓ α × Option String :=
  let result := l.can s.limiter n.toUInt64
  ({ s with limiter := result.1, refused := s.refused || result.2.isSome }, result.2)

def addIn (l : LimiterCalls ℓ) (s : World σ ℓ α) (n : ℕ) : World σ ℓ α × Option String :=
  let result := l.add s.limiter n.toUInt64
  ({ s with limiter := result.1, refused := s.refused || result.2.isSome, added := s.added + n.toUInt64.toNat },
    result.2)

def newConnWithDownloadTrafficLimiter (l : LimiterCalls ℓ) (conn : Conn (World σ ℓ α) α) : Conn (World σ ℓ α) α where
  read := conn.read
  write s p addr :=
    let allowed := l.canIn s p.length
    match allowed.2 with
    | some err => (allowed.1, ⟨0, some err⟩)
    | none =>
      let written := conn.write allowed.1 p addr
      match written.2.err with
      | some err => (written.1, ⟨0, some err⟩)
      | none =>
        let added := l.addIn written.1 written.2.n
        match added.2 with
        | some err => (added.1, ⟨0, some err⟩)
        | none => (added.1, ⟨written.2.n, none⟩)

/-- `Read` of `connWithUploadTrafficLimiter`, and `ReadFrom` of `packetConnWithUploadTrafficLimiter`, which keeps the
count of a failed read. -/
def newConnWithUploadTrafficLimiter (l : LimiterCalls ℓ) (isPacket : Bool) (conn : Conn (World σ ℓ α) α) :
    Conn (World σ ℓ α) α where
  read s size :=
    let allowed := l.canIn s 1
    match allowed.2 with
    | some err => (allowed.1, ⟨[], none, some err⟩)
    | none =>
      let read := conn.read allowed.1 size
      match read.2.err with
      | some err => (read.1, ⟨if isPacket then read.2.data else [], none, some err⟩)
      | none =>
        let added := l.addIn read.1 read.2.data.length
        match added.2 with
        | some err => (added.1, ⟨[], none, some err⟩)
        | none => (added.1, ⟨read.2.data, read.2.addr, none⟩)
  write := conn.write

inductive Mode
  | download
  | upload
  | bidirectional

def wrapper (l : LimiterCalls ℓ) (isPacket reverse : Bool) (conn : Conn (World σ ℓ α) α) : Mode → Conn (World σ ℓ α) α
  | .download =>
    if reverse then l.newConnWithUploadTrafficLimiter isPacket conn else l.newConnWithDownloadTrafficLimiter conn
  | .upload =>
    if reverse then l.newConnWithDownloadTrafficLimiter conn else l.newConnWithUploadTrafficLimiter isPacket conn
  | .bidirectional => l.newConnWithUploadTrafficLimiter isPacket (l.newConnWithDownloadTrafficLimiter conn)

def wrapConn (l : LimiterCalls ℓ) (isPacket reverse : Bool) (mode : Mode) (conn : Conn (World σ ℓ α) α)
    (s : World σ ℓ α) : World σ ℓ α × Except String (Conn (World σ ℓ α) α) :=
  let allowed := l.canIn s 1
  match allowed.2 with
  | some err => (allowed.1, .error err)
  | none => (allowed.1, .ok (l.wrapper isPacket reverse conn mode))

def Mode.reads : Mode → (reverse : Bool) → Bool
  | .download, reverse => reverse
  | .upload, reverse => !reverse
  | .bidirectional, _ => true

def Mode.writes : Mode → (reverse : Bool) → Bool
  | .download, reverse => !reverse
  | .upload, reverse => reverse
  | .bidirectional, _ => true

def Mode.limited (mode : Mode) (reverse : Bool) (read written : ℕ) : ℕ :=
  (if mode.reads reverse then read else 0) + (if mode.writes reverse then written else 0)

end LimiterCalls

inductive Call (α : Type)
  | read (size : ℕ)
  | write (p : Bytes) (addr : Option α)

def Call.size : Call α → ℕ
  | read size => size
  | write p _ => p.length

section

variable (conn : Conn (World σ ℓ α) α)

def Conn.perform (s : World σ ℓ α) : Call α → World σ ℓ α × Answer α
  | .read size => (conn.read s size).map id .read
  | .write p addr => (conn.write s p addr).map id .write

def Conn.step (s : World σ ℓ α) (call : Call α) : Option (World σ ℓ α) :=
  let (s, answer) := conn.perform s call
  some { s with seen := s.seen ++ [answer] }

def Call.limited (mode : LimiterCalls.Mode) (reverse : Bool) : Call α → Bool
  | read _ => mode.reads reverse
  | write _ _ => mode.writes reverse

/-- The limiter accepts, and in a limited direction no bytes come together with an error; a buffer is shorter than an
`int` can say. -/
def Conn.clean (mode : LimiterCalls.Mode) (reverse : Bool) (s : World σ ℓ α) (call : Call α) : Bool :=
  call.size < 2 ^ 63 && !(conn.perform s call).1.refused && !(call.limited mode reverse && (conn.perform s call).1.torn)

end

namespace LimiterCalls

variable {l : LimiterCalls ℓ} {c : Underlying σ α} {s : World σ ℓ α} {isPacket : Bool}

structure Fair (s s' : World σ ℓ α) (answer : Answer α) (read written charge : ℕ) : Prop where
  returned : s'.returned = s.returned ++ [answer]
  seen : s'.seen = s.seen
  read : s'.read = s.read + read
  written : s'.written = s.written + written
  added : s'.added = s.added + charge

theorem toNat_toUInt64 {n size : ℕ} (h : n ≤ size) (hsize : size < 2 ^ 63) : n.toUInt64.toNat = n := by
  simp only [Nat.toUInt64, UInt64.toNat_ofNat']
  omega

theorem fair_read (s : World σ ℓ α) (size : ℕ) :
    Fair s (c.observed.read s size).1 (.read (c.observed.read s size).2) (c.observed.read s size).2.data.length 0 0 :=
  ⟨rfl, rfl, rfl, rfl, rfl⟩

theorem fair_write (s : World σ ℓ α) (p : Bytes) (addr : Option α) :
    Fair s (c.observed.write s p addr).1 (.write (c.observed.write s p addr).2) 0 (c.observed.write s p addr).2.n 0 :=
  ⟨rfl, rfl, rfl, rfl, rfl⟩

theorem fair_download {p : Bytes} {addr : Option α} (hsize : p.length < 2 ^ 63)
    (hrefused : ((l.newConnWithDownloadTrafficLimiter c.observed).write s p addr).1.refused = false)
    (htorn : ((l.newConnWithDownloadTrafficLimiter c.observed).write s p addr).1.torn = false) :
    let result := (l.newConnWithDownloadTrafficLimiter c.observed).write s p addr
    Fair s result.1 (.write result.2) 0 result.2.n result.2.n := by
  have hn := toNat_toUInt64 (c.write_le s.conn p addr) hsize
  simp only [newConnWithDownloadTrafficLimiter, canIn, addIn, Underlying.observed] at hrefused htorn ⊢
  cases hcan : (l.can s.limiter p.length.toUInt64).2 with
  | some err => simp [hcan] at hrefused
  | none =>
    cases hwrite : (c.write s.conn p addr).2 with
    | mk n err =>
    simp only [hcan, hwrite] at hn hrefused htorn ⊢
    cases err with
    | some err =>
      obtain rfl : n = 0 := by simpa using htorn
      exact ⟨rfl, rfl, rfl, rfl, rfl⟩
    | none =>
      simp only at hrefused ⊢
      split at hrefused
      · simp_all
      · simp only [*]
        exact ⟨rfl, rfl, rfl, rfl, rfl⟩

theorem fair_upload {size : ℕ} (hsize : size < 2 ^ 63)
    (hrefused : ((l.newConnWithUploadTrafficLimiter isPacket c.observed).read s size).1.refused = false)
    (htorn : ((l.newConnWithUploadTrafficLimiter isPacket c.observed).read s size).1.torn = false) :
    let result := (l.newConnWithUploadTrafficLimiter isPacket c.observed).read s size
    Fair s result.1 (.read result.2) result.2.data.length 0 result.2.data.length := by
  have hn := toNat_toUInt64 (c.read_le s.conn size) hsize
  simp only [newConnWithUploadTrafficLimiter, canIn, addIn, Underlying.observed] at hrefused htorn ⊢
  cases hcan : (l.can s.limiter (1 : ℕ).toUInt64).2 with
  | some err => simp only [hcan, Option.isSome_some, Bool.or_true, Bool.true_eq_false] at hrefused
  | none =>
    cases hread : (c.read s.conn size).2 with
    | mk data addr err =>
    simp only [hcan, hread] at hn hrefused htorn ⊢
    cases err with
    | some err =>
      obtain ⟨rfl, rfl⟩ : data = [] ∧ addr = none := by simpa using htorn
      cases isPacket <;> exact ⟨rfl, rfl, rfl, rfl, rfl⟩
    | none =>
      simp only at hrefused ⊢
      split at hrefused
      · simp_all
      · simp only [*]
        exact ⟨rfl, rfl, rfl, rfl, rfl⟩

def Charged (mode : Mode) (reverse : Bool) (s : World σ ℓ α) : Prop :=
  s.seen = s.returned ∧ s.added = mode.limited reverse s.read s.written

variable {mode : Mode} {reverse : Bool} {s' : World σ ℓ α}

theorem Mode.limited_add (r w r' w' : ℕ) :
    mode.limited reverse (r + r') (w + w') = mode.limited reverse r w + mode.limited reverse r' w' := by
  unfold limited
  split_ifs <;> omega

theorem wrapper_read (conn : Conn (World σ ℓ α) α) : (l.wrapper isPacket reverse conn mode).read =
    if mode.reads reverse then (l.newConnWithUploadTrafficLimiter isPacket conn).read else conn.read := by
  cases mode <;> cases reverse <;> rfl

theorem wrapper_write (conn : Conn (World σ ℓ α) α) : (l.wrapper isPacket reverse conn mode).write =
    if mode.writes reverse then (l.newConnWithDownloadTrafficLimiter conn).write else conn.write := by
  cases mode <;> cases reverse <;> rfl

theorem Charged.record {answer : Answer α} {read written charge : ℕ} (h : Charged mode reverse s)
    (hfair : Fair s s' answer read written charge) (hcharge : charge = mode.limited reverse read written) :
    Charged mode reverse { s' with seen := s'.seen ++ [answer] } := by
  refine ⟨?_, ?_⟩
  · rw [hfair.seen, hfair.returned, h.1]
  · rw [hfair.added, hfair.read, hfair.written, Mode.limited_add, h.2, hcharge]

theorem Charged.step {call : Call α} (h : Charged mode reverse s)
    (hclean : (l.wrapper isPacket reverse c.observed mode).clean mode reverse s call = true)
    (hstep : (l.wrapper isPacket reverse c.observed mode).step s call = some s') : Charged mode reverse s' := by
  simp only [Conn.clean, Bool.and_eq_true, decide_eq_true_eq, Bool.not_eq_true'] at hclean
  obtain ⟨⟨hsize, hrefused⟩, htorn⟩ := hclean
  cases hstep
  cases call with
  | read size =>
    simp only [Conn.perform, Call.limited, wrapper_read] at hrefused htorn ⊢
    cases hlimited : mode.reads reverse with
    | false => exact h.record (fair_read s size) (by simp [Mode.limited, hlimited])
    | true =>
      rw [hlimited] at hrefused htorn
      exact h.record (fair_upload hsize hrefused htorn) (by simp [Mode.limited, hlimited])
  | write p addr =>
    simp only [Conn.perform, Call.limited, wrapper_write] at hrefused htorn ⊢
    cases hlimited : mode.writes reverse with
    | false => exact h.record (fair_write s p addr) (by simp [Mode.limited, hlimited])
    | true =>
      rw [hlimited] at hrefused htorn
      exact h.record (fair_download hsize hrefused htorn) (by simp [Mode.limited, hlimited])

end LimiterCalls

open LimiterCalls

theorem limited_conn_transparent (l : LimiterCalls ℓ) (c : Underlying σ α) (isPacket reverse : Bool) (mode : Mode)
    (conn : σ) (limiter : ℓ) {s t : World σ ℓ α} {wrapped : Conn (World σ ℓ α) α} {calls : List (Call α)}
    (hwrap : l.wrapConn isPacket reverse mode c.observed (.start conn limiter) = (s, .ok wrapped))
    (hrun : Run wrapped.step (wrapped.clean mode reverse · ·) s calls t) :
    t.seen = t.returned ∧ t.added = mode.limited reverse t.read t.written := by
  simp only [wrapConn] at hwrap
  split at hwrap <;> cases hwrap
  exact hrun.invariant (P := Charged mode reverse) .step ⟨rfl, by cases mode <;> cases reverse <;> rfl⟩

def halfWritten : Underlying ℕ Unit where
  read s _ := (s, ⟨[], none, none⟩)
  write s p _ := (0, ⟨min s p.length, some "broken pipe"⟩)
  read_le _ size := Nat.zero_le size
  write_le s p _ := Nat.min_le_right s p.length

def willing : LimiterCalls Unit := ⟨fun _ _ => ((), none), fun _ _ => ((), none)⟩

theorem short_write_free :
    ∃ s wrapped, willing.wrapConn false false .download halfWritten.observed (.start 3 ()) = (s, .ok wrapped) ∧
      ∃ t, Run wrapped.step anyStep s [.write [1, 2, 3, 4, 5] none] t ∧ t.refused = false ∧ t.written = 3 ∧
        t.added = 0 ∧ t.returned = [.write ⟨3, some "broken pipe"⟩] ∧
        t.seen = [.write ⟨0, some "broken pipe"⟩] :=
  ⟨_, _, rfl, _, .of_exec rfl, rfl, rfl, rfl, rfl, rfl⟩

def whole : Underlying Unit Unit where
  read s size := (s, ⟨List.replicate size 7, none, none⟩)
  write s p _ := (s, ⟨p.length, none⟩)
  read_le _ _ := (List.length_replicate ..).le
  write_le _ p _ := p.length.le_refl

theorem whole_conn_charged :
    ∃ s wrapped, willing.wrapConn true true .bidirectional whole.observed (.start () ()) = (s, .ok wrapped) ∧
      ∃ t, Run wrapped.step (wrapped.clean .bidirectional true · ·) s [.read 2, .write [1, 2, 3] none] t ∧
        t.seen = t.returned ∧ t.added = t.read + t.written ∧ t.read = 2 ∧ t.written = 3 := by
  refine ⟨_, _, rfl, _, .of_execWhile rfl, ?_⟩
  have h := limited_conn_transparent willing whole true true .bidirectional () () rfl
    (show Run _ _ _ [.read 2, .write [1, 2, 3] none] _ from .of_execWhile rfl)
  exact ⟨h.1, h.2, rfl, rfl⟩

end Hydracore.Traffic
