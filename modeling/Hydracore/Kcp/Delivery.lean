import Hydracore.Kcp.Connection
import Hydracore.Kcp.Windows
import Mathlib.Algebra.BigOperators.Group.List.Basic

/-!
Whatever the network does, what `Read` returns is a prefix of what `Write` has accepted on the other side, and a segment
leaves the sending window only once the other side has it.
-/

namespace Hydracore.Kcp

open Formats Systems List Function Step ReceivingWorker Action
open List (forall_mem_nil)

variable {settings : Settings} {buffers : Buffers} {now : UInt32} {timedOut : Bool}
variable {c c' peer peer' : Connection} {accepted accepted' : List Bytes}

theorem splitBytes_append (mb : List Bytes) (size : ℕ) :
    (splitBytes mb size).2 ++ (splitBytes mb size).1.flatten = mb.flatten := by
  induction mb generalizing size with
  | nil => rfl
  | cons buffer mb ih =>
    unfold splitBytes
    split_ifs with hempty
    · have htake : buffer.take size = buffer := by
        have hbuffer := take_append_drop size buffer
        rwa [List.isEmpty_iff.mp hempty, append_nil] at hbuffer
      simp only [append_assoc, ih, flatten_cons, htake]
    · rw [flatten_cons, flatten_cons, ← append_assoc, take_append_drop]

def Segment.Honest (c : Connection) : Segment → Prop
  | .data seg => c.accepted[seg.number.toNat]? = some seg.payload
  | .ack seg => seg.receivingNext.toNat ≤ c.receivingWorker.nextNumber.toNat ∧
      ∀ number ∈ seg.numberList, c.receivingWorker.Stored number
  | .cmdOnly seg => seg.receivingNext.toNat ≤ c.receivingWorker.nextNumber.toNat

def Known (buffers : Buffers) (b : Bytes) : Prop := 0 < b.length ∧ b.length ≤ buffers.capacity

def Controls (cmd : UInt8) : Prop := cmd ≠ commandData ∧ cmd ≠ commandACK

def Action.Honest (buffers : Buffers) (c peer : Connection) : Action → Prop
  | .write (.push buffer _ _) | .write (.notPushed buffer _ _) | .write (.waitForDataOutput buffer _ _) =>
    Known buffers buffer
  | .ping (.firstUnacknowledged _ cmd) | .ping (.nextNumber _ cmd _) => Controls cmd
  | .ping (.timeout _ cmd _ receivingNext) | .ping (.write _ cmd _ receivingNext _) =>
    Controls cmd ∧ receivingNext.toNat ≤ c.receivingWorker.nextNumber.toNat
  | .worker (.processData seg) => (Segment.data seg).Honest peer
  | .worker (.timeout _ seg) | .worker (.processAck _ seg _) => (Segment.ack seg).Honest peer
  | .worker (.processReceivingNext nextNumber) => nextNumber.toNat ≤ peer.receivingWorker.nextNumber.toNat
  | .input _ segments => ∀ seg ∈ segments, seg.Honest peer
  | _ => True

def Action.held : Action → Bytes
  | .read (.split _ mb) => mb.flatten
  | _ => []

def Action.counted : Action → ℕ
  | .write (.chunk _ totalWritten) | .write (.push _ _ totalWritten) | .write (.notPushed _ _ totalWritten)
  | .write (.waitForDataOutput _ _ totalWritten) => totalWritten
  | _ => 0

namespace Connection

structure Grows (c c' : Connection) : Prop where
  accepted : c.accepted <+: c'.accepted
  receiving : c.receivingWorker.Grows c'.receivingWorker

theorem Grows.of_eq (haccepted : c'.accepted = c.accepted) (hreceiving : c'.receivingWorker = c.receivingWorker) :
    Grows c c' :=
  ⟨haccepted ▸ prefix_refl _, hreceiving ▸ .refl _⟩

def Done (c peer : Connection) (number : UInt32) : Prop := c.writeClosed = true ∨ peer.receivingWorker.Stored number

/-- The bytes that were consumed are returned, held by the one `Read` that is at the buffers, left over, or lost in a
release while there was none. -/
structure Stream (c : Connection) (pending : List Action) (accepted : List Bytes) : Prop where
  single : pending.countP Action.holds ≤ 1
  free : 0 < pending.countP Action.holds → c.receivingWorker.leftOver.flatten = []
  bytes : ∃ lost, c.returned ++ pending.flatMap Action.held ++ c.receivingWorker.leftOver.flatten ++ lost =
    (accepted.take c.receivingWorker.nextNumber.toNat).flatten ∧
      (c.released = false ∨ 0 < pending.countP Action.holds → lost = [])

end Connection

open Connection

variable {seg : Segment}

theorem Segment.Honest.mono (h : seg.Honest c) (hgrows : Grows c c') : seg.Honest c' := by
  cases seg with
  | data seg => exact getElem?_of_isPrefix hgrows.accepted h
  | ack seg =>
    exact ⟨h.1.trans hgrows.receiving.nextNumber, fun number hnumber => hgrows.receiving.stored number (h.2 number hnumber)⟩
  | cmdOnly seg => exact Nat.le_trans h hgrows.receiving.nextNumber

theorem Segment.Honest.received (h : seg.Honest c) : seg.received.Honest c := by
  cases seg with
  | data seg | ack seg | cmdOnly seg => exact h

variable {a : Action}

theorem Action.Honest.mono (h : a.Honest buffers c peer) (hgrows : Grows c c') (hpeer : Grows peer peer') :
    a.Honest buffers c' peer' := by
  cases a with
  | state a | update stage current | read a => trivial
  | write a =>
    cases a with
    | check b => trivial
    | chunk rest totalWritten => trivial
    | push buffer rest totalWritten | notPushed buffer rest totalWritten
    | waitForDataOutput buffer rest totalWritten => exact h
  | ping a =>
    cases a with
    | firstUnacknowledged current cmd | nextNumber current cmd sendingNext => exact h
    | timeout current cmd sendingNext receivingNext | write current cmd sendingNext receivingNext peerRTO =>
      exact ⟨h.1, h.2.trans hgrows.receiving.nextNumber⟩
  | worker a =>
    cases a with
    | processData seg =>
      have hseg : (Segment.data seg).Honest peer := h
      exact hseg.mono hpeer
    | timeout current seg | processAck current seg rto =>
      have hseg : (Segment.ack seg).Honest peer := h
      exact hseg.mono hpeer
    | processReceivingNext nextNumber => exact Nat.le_trans h hpeer.receiving.nextNumber
    | processSendingNext number | updatePeerRTO rto current | releaseSending | releaseReceiving => trivial
  | input current segments => exact fun seg hseg => (h seg hseg).mono hpeer

def Action.Plain : Action → Prop
  | .state _ | .update _ _ => True
  | .ping (.firstUnacknowledged _ cmd) => Controls cmd
  | .read (.drain _) | .read (.split _ _) => False
  | .read _ => True
  | .worker (.processSendingNext _) | .worker (.updatePeerRTO _ _) | .worker .releaseSending
  | .worker .releaseReceiving => True
  | _ => False

theorem Action.Plain.spec (h : a.Plain) : a.holds = false ∧ a.counted = 0 := by
  cases a with
  | state a | update stage current | ping a | worker a => exact ⟨rfl, rfl⟩
  | write a | input current segments => cases h
  | read a =>
    cases a with
    | drain size | split size mb => cases h
    | _ => exact ⟨rfl, rfl⟩

theorem Action.Plain.honest (h : a.Plain) : a.Honest buffers c peer := by
  cases a with
  | state a | update stage current | read a => trivial
  | write a | input current segments => cases h
  | ping a =>
    cases a with
    | firstUnacknowledged current cmd => exact h
    | _ => cases h
  | worker a =>
    cases a with
    | processSendingNext number | updatePeerRTO rto current | releaseSending | releaseReceiving => trivial
    | _ => cases h

theorem Action.held_eq_nil (h : a.holds = false) : a.held = [] := by
  cases a with
  | read a =>
    cases a with
    | split size mb => cases h
    | _ => rfl
  | _ => rfl

variable {pending : List Action}

theorem flatMap_held_eq_nil (h : ∀ a ∈ pending, a.holds = false) : pending.flatMap held = [] :=
  flatMap_eq_nil_iff.mpr fun a ha => held_eq_nil (h a ha)

theorem sum_counted_eq_zero (h : ∀ a ∈ pending, a.counted = 0) : (pending.map counted).sum = 0 :=
  sum_eq_zero (forall_mem_map.mpr h)

theorem countP_holds_eq_zero (h : ∀ a ∈ pending, a.holds = false) : pending.countP holds = 0 :=
  countP_eq_zero.mpr fun a ha => Bool.eq_false_iff.mp (h a ha)

namespace Connection

structure Sound (buffers : Buffers) (c peer : Connection) : Prop where
  known : ∀ b ∈ c.accepted, Known buffers b
  sending : c.sendingWorker.Sound c.accepted (Done c peer)
  receiving : c.receivingWorker.Sound peer.accepted

theorem Sound.mono (h : Sound buffers c peer) (hgrows : Grows peer peer') : Sound buffers c peer' :=
  ⟨h.known, h.sending.mono fun _ hdone => hdone.imp_right (hgrows.receiving.stored _), h.receiving.mono hgrows.accepted⟩

structure Quiet (c c' : Connection) : Prop where
  returned : c'.returned = c.returned
  leftOver : c'.receivingWorker.leftOver = c.receivingWorker.leftOver
  nextNumber : c'.receivingWorker.nextNumber = c.receivingWorker.nextNumber
  released : c'.released = c.released

variable {a : Action} {before after next spawned : List Action}

theorem Stream.congr (h : Stream c pending accepted) (hquiet : Quiet c c')
    (hcount : next.countP holds = pending.countP holds) (hheld : next.flatMap held = pending.flatMap held) :
    Stream c' next accepted := by
  refine ⟨hcount ▸ h.single, ?_, ?_⟩
  · rw [hcount, hquiet.leftOver]
    exact h.free
  · rw [hheld, hcount, hquiet.returned, hquiet.leftOver, hquiet.nextNumber, hquiet.released]
    exact h.bytes

theorem Stream.quiet (h : Stream c (before ++ a :: after) accepted) (hquiet : Quiet c c') (ha : a.holds = false)
    (hnext : ∀ b ∈ next, b.holds = false) (hspawned : ∀ b ∈ spawned, b.holds = false) :
    Stream c' (before ++ next ++ after ++ spawned) accepted := by
  refine h.congr hquiet ?_ ?_
  · simp only [countP_append, countP_cons, countP_holds_eq_zero hnext, countP_holds_eq_zero hspawned, ha]
    simp
  · simp only [flatMap_append, flatMap_cons, flatMap_held_eq_nil hnext, flatMap_held_eq_nil hspawned,
      held_eq_nil ha, append_nil, nil_append]

theorem Stream.mono (h : Stream c next accepted) (hinit : accepted <+: accepted')
    (hle : c.receivingWorker.nextNumber.toNat ≤ accepted.length) : Stream c next accepted' := by
  obtain ⟨more, rfl⟩ := hinit
  refine ⟨h.single, h.free, ?_⟩
  rw [take_append_of_le_length hle]
  exact h.bytes

end Connection

def Action.Met (c : Connection) (others : List Action) : Action → Prop
  | .read (.readMultiBuffer _) => (∀ b ∈ others, b.holds = false) ∧ c.released = false
  | _ => True

structure Effect.Good (buffers : Buffers) (c peer : Connection) (a : Action) (e : Effect) : Prop where
  grows : Grows c e.conn
  sound : Connection.Sound buffers e.conn peer
  next : ∀ b ∈ e.next, b.Honest buffers e.conn peer
  spawned : ∀ b ∈ e.spawned.flatten, b.Plain
  out : ∀ seg ∈ e.out, seg.Fits buffers.capacity ∧ seg.Honest e.conn
  counted : e.conn.written.sum + (e.next.map Action.counted).sum + c.accepted.flatten.length =
    c.written.sum + a.counted + e.conn.accepted.flatten.length
  stream : ∀ before after, a.Met c (before ++ after) → Stream c (before ++ a :: after) peer.accepted →
    Stream e.conn (before ++ e.next ++ after ++ e.spawned.flatten) peer.accepted

section Effects

variable {a : Action} {e : Effect}

theorem Effect.Good.of_quiet (hgrows : Grows c e.conn) (hsound : Connection.Sound buffers e.conn peer)
    (hnext : ∀ b ∈ e.next, b.Honest buffers e.conn peer ∧ b.holds = false) (hspawned : e.spawned = [])
    (hout : ∀ seg ∈ e.out, seg.Fits buffers.capacity ∧ seg.Honest e.conn) (hquiet : Quiet c e.conn)
    (hcounted : e.conn.written.sum + (e.next.map Action.counted).sum + c.accepted.flatten.length =
      c.written.sum + a.counted + e.conn.accepted.flatten.length) (ha : a.holds = false) : e.Good buffers c peer a := by
  have hnone : ∀ b ∈ e.spawned.flatten, b.Plain := by
    rw [hspawned]
    exact nofun
  refine ⟨hgrows, hsound, fun b hb => (hnext b hb).1, hnone, hout, hcounted, fun before after _ hstream => ?_⟩
  exact hstream.quiet hquiet ha (fun b hb => (hnext b hb).2) fun b hb => (hnone b hb).spec.1

theorem Effect.Good.of_plain (hgrows : Grows c e.conn) (hsound : Connection.Sound buffers e.conn peer)
    (hnext : ∀ b ∈ e.next, b.Plain) (hspawned : ∀ b ∈ e.spawned.flatten, b.Plain)
    (hout : ∀ seg ∈ e.out, seg.Fits buffers.capacity ∧ seg.Honest e.conn) (hquiet : Quiet c e.conn)
    (haccepted : e.conn.accepted = c.accepted) (hwritten : e.conn.written = c.written) (ha : a.holds = false)
    (hcounted : a.counted = 0) : e.Good buffers c peer a := by
  refine ⟨hgrows, hsound, fun b hb => (hnext b hb).honest, hspawned, hout, ?_, fun before after _ hstream => ?_⟩
  · rw [sum_counted_eq_zero fun b hb => (hnext b hb).spec.2, haccepted, hwritten, hcounted]
  · exact hstream.quiet hquiet ha (fun b hb => (hnext b hb).spec.1) fun b hb => (hspawned b hb).spec.1

theorem quiet_refl (c : Connection) : Quiet c c := ⟨rfl, rfl, rfl, rfl⟩

theorem Effect.Good.of_next {next : List Action} (h : Connection.Sound buffers c peer) (hnext : ∀ b ∈ next, b.Plain)
    (ha : a.Plain) : (Effect.mk c next [] []).Good buffers c peer a :=
  .of_plain (.of_eq rfl rfl) h hnext nofun nofun (quiet_refl c) rfl rfl ha.spec.1 ha.spec.2

theorem plain_setStates (states : List State) : ∀ b ∈ setStates states, b.Plain := by
  intro b hb
  obtain ⟨state, -, rfl⟩ := mem_map.mp hb
  trivial

theorem plain_ite {p : Prop} [Decidable p] {l m : List Action} (hl : ∀ b ∈ l, b.Plain) (hm : ∀ b ∈ m, b.Plain) :
    ∀ b ∈ (if p then l else m), b.Plain := by
  split_ifs
  · exact hl
  · exact hm

section

variable (h : Connection.Sound buffers c peer)
include h

theorem Connection.Sound.close {worker : SendingWorker}
    (hnumber : worker.nextNumber = c.sendingWorker.nextNumber) (hkeys : worker.keys ⊆ c.sendingWorker.keys) :
    Connection.Sound buffers { c with sendingWorker := worker, writeClosed := true } peer :=
  ⟨h.known, ⟨hnumber ▸ h.sending.numbered, fun key hkey => h.sending.carries key (hkeys hkey), fun _ _ => .inr (.inl rfl)⟩,
    h.receiving⟩

theorem good_execState (a : StateAction) : (c.execState now a).Good buffers c peer (.state a) := by
  cases a with
  | handleOption opt =>
    refine .of_next h ?_ trivial
    split_ifs
    · exact plain_setStates _
    · exact nofun
  | peerTerminates | close => exact .of_next h (plain_setStates _) trivial
  | setState state =>
    refine .of_plain (.of_eq rfl rfl) ⟨h.known, h.sending, h.receiving⟩ ?_ nofun nofun ⟨rfl, rfl, rfl, rfl⟩ rfl rfl
      rfl rfl
    intro b hb
    obtain ⟨act, -, rfl⟩ := mem_map.mp hb
    trivial
  | closeWrite =>
    refine .of_plain (.of_eq rfl rfl) (h.close rfl ?_) nofun nofun nofun ⟨rfl, rfl, rfl, rfl⟩ rfl rfl rfl rfl
    exact map_subset _ (dropWhile_subset _)
  | goTerminate =>
    refine .of_plain (.of_eq rfl rfl) h nofun ?_ nofun (quiet_refl c) rfl rfl rfl rfl
    intro b hb
    rw [Connection.execState, flatten_singleton, mem_pair] at hb
    rcases hb with rfl | rfl
    · trivial
    · trivial

theorem good_wrote {totalWritten : ℕ} (ha : a.holds = false)
    (hcounted : a.counted = totalWritten) : (c.wrote totalWritten).Good buffers c peer a := by
  refine .of_quiet (.of_eq rfl rfl) ⟨h.known, h.sending, h.receiving⟩ nofun rfl nofun ⟨rfl, rfl, rfl, rfl⟩ ?_ ha
  simp [Connection.wrote, hcounted]

theorem good_write {b : Action} (hb : b.Honest buffers c peer)
    (hholds : b.holds = false) (ha : a.holds = false) (hcounted : b.counted = a.counted) :
    (Effect.mk c [b] [] []).Good buffers c peer a := by
  refine .of_quiet (.of_eq rfl rfl) h (forall_mem_singleton.mpr ⟨hb, hholds⟩) rfl nofun (quiet_refl c) ?_ ha
  simp [hcounted]

theorem good_execWrite {a : WriteAction} (ha : (Action.write a).Honest buffers c peer)
    (hroom : (c.execWrite settings buffers timedOut a).conn.accepted.length < 2 ^ 32) :
    (c.execWrite settings buffers timedOut a).Good buffers c peer (.write a) := by
  cases a with
  | check b =>
    simp only [execWrite]
    split_ifs
    · exact good_wrote h rfl rfl
    · refine good_write h ?_ rfl rfl rfl
      trivial
  | chunk rest totalWritten =>
    simp only [execWrite]
    split_ifs with hzero
    · exact good_wrote h rfl rfl
    · refine good_write h ⟨?_, ?_⟩ rfl rfl rfl
      · have hle := buffers.readFrom_le (min settings.mss rest.length)
        rw [length_take]
        omega
      · rw [length_take]
        exact (Nat.min_le_left _ _).trans (buffers.readFrom_le_capacity _)
  | push buffer rest totalWritten =>
    simp only [execWrite] at hroom ⊢
    split
    · exact good_write h ha rfl rfl rfl
    · next worker hpush =>
      rw [hpush] at hroom
      refine .of_quiet ⟨prefix_append _ _, .refl _⟩
        ⟨forall_mem_concat h.known ha, h.sending.push hroom hpush, h.receiving⟩ (forall_mem_singleton.mpr ⟨trivial, rfl⟩)
        rfl nofun ⟨rfl, rfl, rfl, rfl⟩ ?_ rfl
      · simp only [map_cons, map_nil, Action.counted, sum_cons, sum_nil, flatten_append,
          length_append, flatten_singleton]
        omega
  | notPushed buffer rest totalWritten | waitForDataOutput buffer rest totalWritten =>
    simp only [execWrite]
    split_ifs
    · exact good_wrote h rfl rfl
    · exact good_write h ha rfl rfl rfl

end

theorem holds_eq_false_of_count (h : pending.countP holds = 0) : ∀ b ∈ pending, b.holds = false :=
  fun b hb => Bool.eq_false_iff.mpr (countP_eq_zero.mp h b hb)

variable {before after : List Action}

theorem Connection.Stream.of_free (h : ∀ b ∈ pending, b.holds = false)
    (hbytes : c.returned ++ c.receivingWorker.leftOver.flatten =
      (accepted.take c.receivingWorker.nextNumber.toNat).flatten) : Stream c pending accepted := by
  have hcount := countP_holds_eq_zero h
  refine ⟨by omega, fun hpos => by omega, [], ?_, fun _ => rfl⟩
  rw [flatMap_held_eq_nil h, append_nil, append_nil, hbytes]

theorem Connection.Stream.of_alone (hbefore : ∀ b ∈ before, b.holds = false) (hafter : ∀ b ∈ after, b.holds = false)
    (ha : a.holds = true) (hleft : c.receivingWorker.leftOver.flatten = [])
    (hbytes : c.returned ++ a.held = (accepted.take c.receivingWorker.nextNumber.toNat).flatten) :
    Stream c (before ++ [a] ++ after) accepted := by
  refine ⟨?_, fun _ => hleft, [], ?_, fun _ => rfl⟩
  · simp [countP_append, countP_holds_eq_zero hbefore, countP_holds_eq_zero hafter, ha]
  · simp [flatMap_append, flatMap_held_eq_nil hbefore, flatMap_held_eq_nil hafter, hleft, hbytes]

theorem Connection.Stream.alone (h : Stream c (before ++ a :: after) accepted) (ha : a.holds = true) :
    (∀ b ∈ before, b.holds = false) ∧ (∀ b ∈ after, b.holds = false) ∧ c.receivingWorker.leftOver.flatten = [] ∧
      c.returned ++ a.held = (accepted.take c.receivingWorker.nextNumber.toNat).flatten := by
  have hpos : 0 < (before ++ a :: after).countP holds := by simp [countP_append, ha]
  have hleft := h.free hpos
  have hsingle := h.single
  obtain ⟨lost, hbytes, hlost⟩ := h.bytes
  simp only [countP_append, countP_cons, ha, if_true] at hsingle
  have hbefore : ∀ b ∈ before, b.holds = false := holds_eq_false_of_count (by omega)
  have hafter : ∀ b ∈ after, b.holds = false := holds_eq_false_of_count (by omega)
  simp only [flatMap_append, flatMap_cons, flatMap_held_eq_nil hbefore, flatMap_held_eq_nil hafter, hleft,
    hlost (.inr hpos), append_nil, nil_append] at hbytes
  exact ⟨hbefore, hafter, hleft, hbytes⟩

section

variable (h : Connection.Sound buffers c peer)
include h

theorem Effect.Good.of_taking {worker : ReceivingWorker} {returned : Bytes} {next : List Action} {a : ReadAction}
    (hgrows : c.receivingWorker.Grows worker) (hsound : worker.Sound peer.accepted)
    (hnext : ∀ b ∈ next, b.Honest buffers c peer ∧ b.counted = 0)
    (hstream : ∀ before after, (read a).Met c (before ++ after) → Stream c (before ++ read a :: after) peer.accepted →
      Stream { c with receivingWorker := worker, returned := returned } (before ++ next ++ after) peer.accepted) :
    (Effect.mk { c with receivingWorker := worker, returned := returned } next [] []).Good buffers c peer (.read a) := by
  have hconn : Grows c { c with receivingWorker := worker, returned := returned } := ⟨prefix_refl _, hgrows⟩
  refine ⟨hconn, ⟨h.known, h.sending, hsound⟩, fun b hb => (hnext b hb).1.mono hconn (.of_eq rfl rfl), forall_mem_nil _,
    forall_mem_nil _, ?_, fun before after hmet h => ?_⟩
  · rw [sum_counted_eq_zero fun b hb => (hnext b hb).2]
    rfl
  · rw [flatten_nil, append_nil]
    exact hstream before after hmet h

theorem Connection.Sound.leave (left : List Bytes) :
    ReceivingWorker.Sound { c.receivingWorker with leftOver := left } peer.accepted :=
  ⟨h.receiving.nextNumber_le, h.receiving.carries, h.receiving.acked⟩

theorem good_readMultiBuffer (size : ℕ) :
    (c.execRead timedOut (.readMultiBuffer size)).Good buffers c peer (.read (.readMultiBuffer size)) := by
  have hfree (before after : List Action) (hmet : (read (.readMultiBuffer size)).Met c (before ++ after))
      (hstream : Stream c (before ++ read (.readMultiBuffer size) :: after) peer.accepted) :
      (∀ b ∈ before, b.holds = false) ∧ (∀ b ∈ after, b.holds = false) ∧
        c.returned ++ c.receivingWorker.leftOver.flatten =
          (peer.accepted.take c.receivingWorker.nextNumber.toNat).flatten := by
    obtain ⟨hothers, hreleased⟩ := hmet
    obtain ⟨hbefore, hafter⟩ := forall_mem_append.mp hothers
    obtain ⟨lost, hbytes, hlost⟩ := hstream.bytes
    simp only [flatMap_append, flatMap_cons, flatMap_held_eq_nil hbefore, flatMap_held_eq_nil hafter, held,
      hlost (.inl hreleased), append_nil] at hbytes
    exact ⟨hbefore, hafter, hbytes⟩
  simp only [execRead]
  split_ifs with hempty
  · refine .of_taking h (.refl _) h.receiving (forall_mem_singleton.mpr ⟨trivial, rfl⟩) ?_
    intro before after hmet hstream
    obtain ⟨hbefore, hafter, hbytes⟩ := hfree before after hmet hstream
    have hleft : c.receivingWorker.leftOver.flatten = [] := by rw [List.isEmpty_iff.mp hempty, flatten_nil]
    rw [hleft] at hbytes
    exact .of_alone hbefore hafter rfl hleft hbytes
  · refine .of_taking h (grows_of_window rfl (Subset.refl _)) (h.leave []) (forall_mem_singleton.mpr ⟨trivial, rfl⟩) ?_
    intro before after hmet hstream
    obtain ⟨hbefore, hafter, hbytes⟩ := hfree before after hmet hstream
    exact .of_alone hbefore hafter rfl rfl hbytes

theorem good_drain (hroom : peer.accepted.length < 2 ^ 32) (size : ℕ) :
    (c.execRead timedOut (.drain size)).Good buffers c peer (.read (.drain size)) := by
  obtain ⟨hsound, hgrows, hkept, taken, hmb, htake⟩ :=
    drain_spec c.receivingWorker.window.length h.receiving hroom []
  refine .of_taking h hgrows hsound (forall_mem_singleton.mpr ⟨trivial, rfl⟩) fun before after _ hstream => ?_
  obtain ⟨hbefore, hafter, hleft, hbytes⟩ := hstream.alone rfl
  refine .of_alone hbefore hafter rfl (hkept ▸ hleft) ?_
  have hreturned : c.returned = (peer.accepted.take c.receivingWorker.nextNumber.toNat).flatten :=
    (append_nil _).symm.trans hbytes
  rw [htake, held, hmb, nil_append, flatten_append, ← hreturned]

theorem good_split (size : ℕ) (mb : List Bytes) :
    (c.execRead timedOut (.split size mb)).Good buffers c peer (.read (.split size mb)) := by
  have hnothing : ∀ b ∈ [read (.nothing size)], b.Plain := forall_mem_singleton.mpr trivial
  by_cases hempty : mb.flatten = []
  · simp only [execRead, if_pos hempty]
    refine .of_taking h (.refl _) h.receiving (fun b hb => ⟨(hnothing b hb).honest, (hnothing b hb).spec.2⟩) ?_
    intro before after _ hstream
    obtain ⟨hbefore, hafter, hleft, hbytes⟩ := hstream.alone rfl
    refine .of_free (forall_mem_append.mpr
      ⟨forall_mem_append.mpr ⟨hbefore, fun b hb => (hnothing b hb).spec.1⟩, hafter⟩) ?_
    rw [hleft, ← hempty]
    exact hbytes
  · simp only [execRead, if_neg hempty]
    have hnext := plain_ite (p := (splitBytes mb size).2 = []) hnothing (forall_mem_nil _)
    refine .of_taking h (grows_of_window rfl (Subset.refl _)) (h.leave _)
      (fun b hb => ⟨(hnext b hb).honest, (hnext b hb).spec.2⟩) fun before after _ hstream => ?_
    obtain ⟨hbefore, hafter, hleft, hbytes⟩ := hstream.alone rfl
    refine .of_free (forall_mem_append.mpr
      ⟨forall_mem_append.mpr ⟨hbefore, fun b hb => (hnext b hb).spec.1⟩, hafter⟩) ?_
    have hflatten : (if (splitBytes mb size).1.flatten = [] then c.receivingWorker.leftOver else
        (splitBytes mb size).1).flatten = (splitBytes mb size).1.flatten := by
      split_ifs with hnone
      · exact hleft.trans hnone.symm
      · rfl
    rw [hflatten, append_assoc, splitBytes_append]
    exact hbytes

theorem good_execRead (hroom : peer.accepted.length < 2 ^ 32) (a : ReadAction) :
    (c.execRead timedOut a).Good buffers c peer (.read a) := by
  have hplain (b : ReadAction) (hb : (read b).Plain) : ∀ other ∈ [read b], other.Plain :=
    forall_mem_singleton.mpr hb
  cases a with
  | check size | nothing size | waitForDataInput size =>
    simp only [execRead]
    split_ifs
    · exact .of_next h nofun trivial
    · exact .of_next h (hplain _ trivial) trivial
  | readMultiBuffer size => exact good_readMultiBuffer h size
  | drain size => exact good_drain h hroom size
  | split size mb => exact good_split h size mb

theorem good_ping {a b : PingAction} (hb : (Action.ping b).Honest buffers c peer) :
    (Effect.mk c [.ping b] [] []).Good buffers c peer (.ping a) := by
  exact .of_quiet (.of_eq rfl rfl) h (forall_mem_singleton.mpr ⟨hb, rfl⟩) rfl nofun (quiet_refl c) rfl rfl

theorem good_execPing {a : PingAction}
    (ha : (ping a).Honest buffers c peer) : (c.execPing settings a).Good buffers c peer (.ping a) := by
  cases a with
  | firstUnacknowledged current cmd | timeout current cmd sendingNext receivingNext => exact good_ping h ha
  | nextNumber current cmd sendingNext => exact good_ping h ⟨ha, Nat.le_refl _⟩
  | write current cmd sendingNext receivingNext peerRTO =>
    refine .of_plain (.of_eq rfl rfl) ⟨h.known, h.sending, h.receiving⟩ nofun nofun ?_
      ⟨rfl, rfl, rfl, rfl⟩ rfl rfl rfl rfl
    exact forall_mem_singleton.mpr ⟨ha.1, ha.2⟩

end

theorem quiet_processSegment {windowSize : UInt32} {seg : DataSegment} :
    Quiet c { c with receivingWorker := c.receivingWorker.processSegment windowSize seg } := by
  unfold processSegment
  split_ifs
  all_goals exact ⟨rfl, rfl, rfl, rfl⟩

theorem good_execWorker (h : Connection.Sound buffers c peer) {a : WorkerAction}
    (ha : (Action.worker a).Honest buffers c peer) : (c.execWorker settings a).Good buffers c peer (.worker a) := by
  cases a with
  | processData seg =>
    refine .of_plain ⟨prefix_refl _, ?_⟩ ⟨h.known, h.sending, h.receiving.processSegment ha⟩ nofun nofun nofun
      quiet_processSegment rfl rfl rfl rfl
    exact grows_processSegment
  | timeout current seg =>
    exact .of_quiet (.of_eq rfl rfl) h (forall_mem_singleton.mpr ⟨ha, rfl⟩) rfl nofun (quiet_refl c) rfl rfl
  | processAck current seg rto =>
    refine .of_plain (.of_eq rfl rfl) ⟨h.known, h.sending.trims ?_, h.receiving⟩ nofun
      nofun nofun ⟨rfl, rfl, rfl, rfl⟩
      rfl rfl rfl rfl
    apply SendingWorker.trims_processSegment
    · exact fun number hlt => .inr (.inl (Nat.lt_of_lt_of_le hlt ha.1))
    · exact fun number hnumber => .inr (ha.2 number hnumber)
  | processReceivingNext nextNumber =>
    refine .of_plain (.of_eq rfl rfl) ⟨h.known, h.sending.trims ?_, h.receiving⟩ nofun
      nofun nofun ⟨rfl, rfl, rfl, rfl⟩
      rfl rfl rfl rfl
    apply SendingWorker.trims_processReceivingNext
    exact fun number hlt => .inr (.inl (Nat.lt_of_lt_of_le hlt ha))
  | processSendingNext number =>
    refine .of_plain ⟨prefix_refl _, ?_⟩ ⟨h.known, h.sending, h.receiving.processSendingNext number⟩
      nofun nofun nofun ⟨rfl, rfl, rfl, rfl⟩ rfl rfl rfl rfl
    exact grows_of_window rfl (Subset.refl _)
  | updatePeerRTO rto current =>
    exact .of_plain (.of_eq rfl rfl) ⟨h.known, h.sending, h.receiving⟩ nofun nofun
      nofun ⟨rfl, rfl, rfl, rfl⟩ rfl rfl
      rfl rfl
  | releaseSending =>
    exact .of_plain (.of_eq rfl rfl) (h.close rfl (nil_subset _)) nofun nofun nofun ⟨rfl, rfl, rfl, rfl⟩ rfl rfl
      rfl rfl
  | releaseReceiving =>
    refine ⟨⟨prefix_refl _, ?_⟩, ⟨h.known, h.sending, ?_⟩, forall_mem_nil _, forall_mem_nil _,
      forall_mem_nil _, rfl, ?_⟩
    · exact grows_of_window rfl (Subset.refl _)
    · exact ⟨h.receiving.nextNumber_le, h.receiving.carries, h.receiving.acked⟩
    · intro before after _ hstream
      have hpending : Stream c (before ++ [] ++ after ++ []) peer.accepted :=
        hstream.quiet (quiet_refl c) rfl nofun nofun
      obtain ⟨lost, hbytes, hlost⟩ := hpending.bytes
      refine ⟨hpending.single, fun _ => rfl, c.receivingWorker.leftOver.flatten ++ lost, ?_, ?_⟩
      · rw [append_assoc] at hbytes
        exact (congrArg (· ++ _) (append_nil _)).trans hbytes
      · rintro (hreleased | hpos)
        · cases hreleased
        · rw [hpending.free hpos, hlost (.inr hpos), append_nil]

variable {current : UInt32}

theorem honest_inputActions (h : seg.Honest peer) :
    ∀ b ∈ inputActions current seg, b.Honest buffers c peer ∧ b.holds = false ∧ b.counted = 0 := by
  cases seg with
  | data seg | ack seg =>
    intro b hb
    rcases mem_pair.mp hb with rfl | rfl
    · exact ⟨trivial, rfl, rfl⟩
    · exact ⟨h, rfl, rfl⟩
  | cmdOnly seg =>
    intro b hb
    simp only [inputActions, mem_append, mem_cons, not_mem_nil, or_false] at hb
    rcases hb with (rfl | hterminate) | rfl | rfl | rfl
    · exact ⟨trivial, rfl, rfl⟩
    · split_ifs at hterminate
      · rw [mem_singleton.mp hterminate]
        exact ⟨trivial, rfl, rfl⟩
      · cases hterminate
    · exact ⟨h, rfl, rfl⟩
    · exact ⟨trivial, rfl, rfl⟩
    · exact ⟨trivial, rfl, rfl⟩

theorem good_execInput (h : Connection.Sound buffers c peer) {segments : List Segment}
    (ha : (Action.input current segments).Honest buffers c peer) :
    (c.execInput settings current segments).Good buffers c peer (.input current segments) := by
  cases segments with
  | nil => exact .of_quiet (.of_eq rfl rfl) h nofun rfl nofun (quiet_refl c) rfl rfl
  | cons seg segments =>
    have hrest : (Action.input current segments).Honest buffers c peer :=
      fun other hother => ha other (mem_cons_of_mem seg hother)
    have hnext : ∀ b ∈ inputActions current seg ++ [.input current segments],
        b.Honest buffers c peer ∧ b.holds = false ∧ b.counted = 0 := by
      exact forall_mem_concat (honest_inputActions (ha seg mem_cons_self)) ⟨hrest, rfl, rfl⟩
    simp only [execInput]
    split_ifs
    · exact .of_quiet (.of_eq rfl rfl) h nofun rfl nofun (quiet_refl c) rfl rfl
    · refine .of_quiet (.of_eq rfl rfl) h (fun b hb => ⟨(hnext b hb).1, (hnext b hb).2.1⟩) rfl nofun
        (quiet_refl c) ?_ rfl
      rw [sum_counted_eq_zero fun b hb => (hnext b hb).2.2]
      rfl

theorem plain_ping {cmd : UInt8} (h : Controls cmd) : ∀ b ∈ [ping (.firstUnacknowledged current cmd)], b.Plain :=
  forall_mem_singleton.mpr h

theorem plain_update (stage : UpdateStage) (current : UInt32) : ∀ b ∈ [update stage current], b.Plain :=
  forall_mem_singleton.mpr trivial

theorem plain_state (a : StateAction) : ∀ b ∈ [state a], b.Plain :=
  forall_mem_singleton.mpr trivial

section

variable (h : Connection.Sound buffers c peer)
include h

theorem Connection.Sound.data_flush {option : UInt8} {current rto : UInt32}
    {seg : DataSegment} (hseg : seg ∈ (c.sendingWorker.flush settings.config settings.conversation option current rto).out) :
    (Segment.data seg).Fits buffers.capacity ∧ (Segment.data seg).Honest c := by
  have hkey : (seg.number, seg.payload) ∈ c.sendingWorker.keys := SendingWorker.out_flush (mem_map_of_mem hseg)
  have hcarries := h.sending.carries _ hkey
  have hknown := h.known _ (mem_of_getElem? hcarries)
  exact ⟨⟨hknown.1, hknown.2, Nat.lt_of_le_of_lt hknown.2 buffers.capacity_lt⟩, hcarries⟩

theorem good_execUpdate (stage : UpdateStage) (current : UInt32) :
    (c.execUpdate settings current stage).Good buffers c peer (.update stage current) := by
  cases stage with
  | terminated => exact .of_next h (plain_ite nofun (plain_update _ _)) trivial
  | idle | isEmpty | peerTerminating | closing =>
    exact .of_next h (forall_mem_append.mpr ⟨plain_ite (plain_state _) nofun, plain_update _ _⟩) trivial
  | readyToClose => exact .of_next h (plain_update _ _) trivial
  | terminating =>
    refine .of_next h (plain_ite (plain_ite (plain_state _) (plain_ping ?_)) (plain_update _ _)) trivial
    exact ⟨by decide, by decide⟩
  | flushReceiving =>
    refine .of_plain ⟨prefix_refl _, ?_⟩ ⟨h.known, h.sending, ?_⟩ (plain_update _ _) nofun ?_
      ⟨rfl, rfl, rfl, rfl⟩ rfl rfl rfl rfl
    · exact grows_of_window rfl (Subset.refl _)
    · exact h.receiving.flush settings.config.getReceivingInFlightSize settings.conversation c.option _ _
    · intro seg hseg
      obtain ⟨ack, hack, rfl⟩ := mem_map.mp hseg
      obtain ⟨hnext, hstored, hlength⟩ := flush_out h.receiving hack
      exact ⟨hlength, hnext ▸ Nat.le_refl _, hstored⟩
  | flushSending =>
    refine .of_plain (.of_eq rfl rfl) ⟨h.known, h.sending.trims SendingWorker.trims_flush, h.receiving⟩ ?_ nofun ?_
      ⟨rfl, rfl, rfl, rfl⟩ rfl rfl rfl rfl
    · exact forall_mem_append.mpr ⟨plain_ite (plain_ping ⟨by decide, by decide⟩) nofun, plain_update _ _⟩
    · intro seg hseg
      obtain ⟨data, hdata, rfl⟩ := mem_map.mp hseg
      exact h.data_flush hdata
  | lastPing => exact .of_next h (plain_ite (plain_ping ⟨by decide, by decide⟩) nofun) trivial

theorem good_exec (ha : a.Honest buffers c peer)
    (hroom : (c.exec settings buffers now timedOut a).conn.accepted.length < 2 ^ 32)
    (hpeer : peer.accepted.length < 2 ^ 32) : (c.exec settings buffers now timedOut a).Good buffers c peer a := by
  cases a with
  | state a => exact good_execState h a
  | write a => exact good_execWrite h ha hroom
  | read a => exact good_execRead h hpeer a
  | ping a => exact good_execPing h ha
  | worker a => exact good_execWorker h ha
  | input current segments => exact good_execInput h ha
  | update stage current => exact good_execUpdate h stage current

end

theorem accepted_execWrite (a : WriteAction) :
    c.accepted <+: (c.execWrite settings buffers timedOut a).conn.accepted := by
  cases a with
  | push buffer rest totalWritten =>
    simp only [execWrite]
    split
    · exact prefix_refl _
    · exact prefix_append _ _
  | _ =>
    simp only [execWrite]
    split_ifs
    · exact prefix_refl _
    · exact prefix_refl _

theorem accepted_exec (a : Action) : c.accepted <+: (c.exec settings buffers now timedOut a).conn.accepted := by
  cases a with
  | state a | ping a | worker a => cases a <;> exact prefix_refl _
  | write a => exact accepted_execWrite a
  | read a =>
    cases a with
    | drain size => exact prefix_refl _
    | _ =>
      simp only [Connection.exec, execRead]
      split_ifs
      all_goals exact prefix_refl _
  | input current segments =>
    cases segments with
    | nil => exact prefix_refl _
    | cons seg segments =>
      simp only [Connection.exec, execInput]
      split_ifs
      · exact prefix_refl _
      · exact prefix_refl _
  | update stage current => cases stage <;> exact prefix_refl _

end Effects

structure Side.Sound (buffers : Buffers) (s : Side) (peer : Connection) : Prop where
  conn : Connection.Sound buffers s.conn peer
  stream : Stream s.conn s.tasks.flatten peer.accepted
  counted : s.conn.written.sum + (s.tasks.flatten.map Action.counted).sum = s.conn.accepted.flatten.length
  actions : ∀ a ∈ s.tasks.flatten, a.Honest buffers s.conn peer
  sent : ∀ b ∈ s.sent, ∃ seg : Segment, b = seg.serialize ∧ seg.Fits buffers.capacity ∧ seg.Honest s.conn

namespace Side

variable {s s' : Side}

theorem Sound.mono (h : Sound buffers s peer) (hgrows : Grows peer peer') : Sound buffers s peer' :=
  ⟨h.conn.mono hgrows, h.stream.mono hgrows.accepted h.conn.receiving.nextNumber_le, h.counted,
    fun a ha => (h.actions a ha).mono (.of_eq rfl rfl) hgrows, h.sent⟩

def Orderly (s : Side) (task : ℕ) : Prop :=
  ∀ size rest, s.tasks[task]? = some (.read (.readMultiBuffer size) :: rest) →
    (∀ b ∈ s.tasks.flatten, b.holds = false) ∧ s.conn.released = false

theorem accepted_run {task : ℕ} (hrun : s.run settings buffers task now timedOut = some s') :
    s.conn.accepted <+: s'.conn.accepted := by
  unfold run at hrun
  split at hrun
  · cases hrun
    exact accepted_exec _
  · cases hrun

section

variable (h : Sound buffers s peer)
include h

theorem Sound.run {task : ℕ} (horderly : s.Orderly task)
    (hrun : s.run settings buffers task now timedOut = some s') (hroom : s'.conn.accepted.length < 2 ^ 32)
    (hpeer : peer.accepted.length < 2 ^ 32) : Sound buffers s' peer ∧ Grows s.conn s'.conn := by
  unfold Side.run at hrun
  split at hrun
  · next a rest htask =>
    cases hrun
    obtain ⟨before, after, hpending, hafter⟩ := flatten_run htask
    have hmem : a ∈ s.tasks.flatten := by
      rw [hpending]
      exact mem_append_right _ mem_cons_self
    have hgood : (s.conn.exec settings buffers now timedOut a).Good buffers s.conn peer a :=
      good_exec h.conn (h.actions a hmem) hroom hpeer
    have hmet : a.Met s.conn (before ++ after) := by
      cases a with
      | read a =>
        cases a with
        | readMultiBuffer size =>
          obtain ⟨hfree, hreleased⟩ := horderly size rest htask
          refine ⟨fun b hb => hfree b ?_, hreleased⟩
          rw [hpending]
          rcases mem_append.mp hb with hleft | hright
          · exact mem_append_left _ hleft
          · exact mem_append_right _ (mem_cons_of_mem _ hright)
        | _ => trivial
      | _ => trivial
    have hcounted := h.counted
    have hstream := h.stream
    have hactions := h.actions
    rw [hpending] at hcounted hstream hactions
    refine ⟨⟨hgood.sound, ?_, ?_, ?_, ?_⟩, hgood.grows⟩
    · rw [hafter]
      exact hgood.stream before after hmet hstream
    · have hspawned := sum_counted_eq_zero fun b hb => (hgood.spawned b hb).spec.2
      have heffect := hgood.counted
      simp only [map_append, map_cons, sum_append, sum_cons] at hcounted
      simp only [hafter, map_append, sum_append, hspawned]
      omega
    · intro b hb
      simp only [hafter, mem_append] at hb
      rcases hb with ((hbefore | hnext) | hlater) | hspawned
      · exact (hactions b (mem_append_left _ hbefore)).mono hgood.grows (.of_eq rfl rfl)
      · exact hgood.next b hnext
      · exact (hactions b (mem_append_right _ (mem_cons_of_mem a hlater))).mono hgood.grows (.of_eq rfl rfl)
      · exact (hgood.spawned b hspawned).honest
    · intro b hb
      rcases mem_append.mp hb with hold | hnew
      · obtain ⟨seg, hserialize, hfits, hhonest⟩ := h.sent b hold
        exact ⟨seg, hserialize, hfits, hhonest.mono hgood.grows⟩
      · obtain ⟨seg, hseg, rfl⟩ := mem_map.mp hnew
        exact ⟨seg, rfl, hgood.out seg hseg⟩
  · cases hrun

theorem Sound.spawn (ha : a.Honest buffers s.conn peer) (hholds : a.holds = false)
    (hcounted : a.counted = 0) : Sound buffers { s with tasks := s.tasks ++ [[a]] } peer := by
  have hflatten : (s.tasks ++ [[a]]).flatten = s.tasks.flatten ++ [a] := by simp
  refine ⟨h.conn, h.stream.congr (quiet_refl _) ?_ ?_, ?_, fun b hb => ?_, h.sent⟩
  · simp [countP_append, hholds]
  · simp [flatMap_append, held_eq_nil hholds]
  · simp only [hflatten, map_append, sum_append, map_cons, map_nil, hcounted]
    exact h.counted
  · rw [hflatten] at hb
    rcases mem_append.mp hb with hold | hnew
    · exact h.actions b hold
    · rw [mem_singleton.mp hnew]
      exact ha

theorem Sound.arrive (current : UInt32) :
    Sound buffers { s with conn := { s.conn with lastIncomingTime := current } } peer := by
  refine ⟨⟨h.conn.known, h.conn.sending, h.conn.receiving⟩, h.stream.congr ⟨rfl, rfl, rfl, rfl⟩ rfl rfl, h.counted,
    fun a ha => ?_, fun b hb => ?_⟩
  · exact (h.actions a ha).mono (.of_eq rfl rfl) (.of_eq rfl rfl)
  · obtain ⟨seg, hserialize, hfits, hhonest⟩ := h.sent b hb
    exact ⟨seg, hserialize, hfits, hhonest.mono (.of_eq rfl rfl)⟩

theorem Sound.readDatagram {b : Bytes} (hb : b ∈ s.sent) :
    ∀ seg ∈ Kcp.readDatagram buffers.capacity b, seg.Honest s.conn := by
  obtain ⟨sent, rfl, hfits, hhonest⟩ := h.sent b hb
  intro seg hseg
  rw [readDatagram_serialize hfits] at hseg
  rw [mem_singleton.mp hseg]
  exact hhonest.received

end

end Side

namespace World

variable {settings : Bool → Settings} {w w' : World}

def Sound (buffers : Buffers) (w : World) : Prop := ∀ side, (w side).Sound buffers (w !side).conn

theorem Sound.update {side : Bool} {s : Side} (h : w.Sound buffers) (hs : s.Sound buffers (w !side).conn)
    (hgrows : Grows (w side).conn s.conn) : Sound buffers (update w side s) := by
  intro other
  by_cases hother : other = side
  · subst hother
    rw [update_self, update_of_ne (by simp)]
    exact hs
  · obtain rfl : side = !other := by
      cases side <;> cases other <;> simp_all
    rw [update_of_ne hother, update_self]
    exact (h other).mono hgrows

theorem call_task (buffers : Buffers) (call : Call) : ∃ a : Action, call.task = [a] ∧ a.holds = false ∧ a.counted = 0 ∧
    ∀ c peer, a.Honest buffers c peer := by
  cases call with
  | write b | read size | close | tick current => exact ⟨_, rfl, rfl, rfl, fun _ _ => trivial⟩

theorem orderly_run {side : Bool} {task : ℕ} (h : w.orderly (.run side task now timedOut) = true) :
    (w side).Orderly task := by
  intro size rest htask
  simp only [orderly, htask, Bool.and_eq_true, Bool.not_eq_true', any_eq_false] at h
  exact ⟨fun b hb => Bool.eq_false_iff.mpr (h.1 b hb), h.2⟩

theorem accepted_step {act : Step} (hstep : w.step settings buffers act = some w') (side : Bool) :
    (w side).conn.accepted <+: (w' side).conn.accepted := by
  have hupdate (other : Bool) (s : Side) (hs : (w other).conn.accepted <+: s.conn.accepted) :
      (w side).conn.accepted <+: (update w other s side).conn.accepted := by
    by_cases hside : side = other
    · subst hside
      rwa [update_self]
    · refine ⟨[], ?_⟩
      rw [update_of_ne hside, append_nil]
  cases act with
  | call other call =>
    cases hstep
    exact hupdate _ _ (prefix_refl _)
  | input other datagram current =>
    obtain ⟨b, -, rfl⟩ := Option.map_eq_some_iff.mp hstep
    exact hupdate _ _ (prefix_refl _)
  | run other task now timedOut =>
    obtain ⟨s, hs, rfl⟩ := Option.map_eq_some_iff.mp hstep
    exact hupdate _ _ (Side.accepted_run hs)

theorem Sound.step {act : Step} (h : w.Sound buffers) (hmet : w.orderly act = true)
    (hstep : w.step settings buffers act = some w') (hroom : ∀ side, (w' side).conn.accepted.length < 2 ^ 32) :
    w'.Sound buffers := by
  cases act with
  | call side call =>
    cases hstep
    obtain ⟨a, htask, hholds, hcounted, hhonest⟩ := call_task buffers call
    rw [htask]
    exact h.update ((h side).spawn (hhonest _ _) hholds hcounted) (.of_eq rfl rfl)
  | input side datagram current =>
    obtain ⟨b, hb, rfl⟩ := Option.map_eq_some_iff.mp hstep
    have hsegments := (h !side).readDatagram (mem_of_getElem? hb)
    exact h.update (((h side).arrive current).spawn hsegments rfl rfl) (.of_eq rfl rfl)
  | run side task now timedOut =>
    obtain ⟨s, hs, rfl⟩ := Option.map_eq_some_iff.mp hstep
    have hside := hroom side
    have hpeer := hroom !side
    rw [update_self] at hside
    rw [update_of_ne (by simp)] at hpeer
    obtain ⟨hsound, hgrows⟩ := (h side).run (orderly_run hmet) hs hside hpeer
    exact h.update hsound hgrows

theorem sound_start : Sound buffers (start settings) := by
  intro side
  refine ⟨⟨nofun, ⟨rfl, nofun, nofun⟩, Nat.le_refl _, nofun, nofun⟩, ?_, rfl, nofun, nofun⟩
  exact ⟨Nat.zero_le _, nofun, [], rfl, fun _ => rfl⟩

theorem delivers {acts : List Step} (h : Run (step settings buffers) (orderly · ·) (start settings) acts w)
    (hcount : ∀ side, (w side).conn.accepted.length < 2 ^ 31) (side : Bool) :
    (w side).conn.returned <+: (w !side).conn.accepted.flatten ∧
    (w side).conn.written.sum + ((w side).tasks.flatten.map counted).sum = (w side).conn.accepted.flatten.length ∧
    ∀ number : UInt32, number.toNat < (w side).conn.accepted.length → (w side).conn.writeClosed = false →
      (∃ seg ∈ (w side).conn.sendingWorker.window.cache, seg.number = number) ∨
        (w !side).conn.receivingWorker.Stored number := by
  have hsound : (∀ side, (w side).conn.accepted.length < 2 ^ 31) → w.Sound buffers := by
    refine h.invariant (P := fun w => (∀ side, (w side).conn.accepted.length < 2 ^ 31) → w.Sound buffers) ?_
      fun _ => sound_start
    intro w act w' hbefore hmet hstep hlater
    have hless : ∀ side, (w side).conn.accepted.length < 2 ^ 31 := fun side =>
      Nat.lt_of_le_of_lt (accepted_step hstep side).length_le (hlater side)
    exact (hbefore hless).step hmet hstep fun side => Nat.lt_trans (hlater side) (by decide)
  have hside := hsound hcount side
  refine ⟨?_, hside.counted, fun number hnumber hopen => ?_⟩
  · obtain ⟨lost, hbytes, -⟩ := hside.stream.bytes
    have htake := List.take_append_drop (w side).conn.receivingWorker.nextNumber.toNat (w !side).conn.accepted
    rw [← htake, List.flatten_append, ← hbytes, List.append_assoc, List.append_assoc, List.append_assoc]
    exact List.prefix_append _ _
  · rcases hside.conn.sending.dropped number hnumber with hmem | hclosed | hstored
    · obtain ⟨key, hkey, rfl⟩ := List.mem_map.mp hmem
      obtain ⟨seg, hseg, rfl⟩ := List.mem_map.mp hkey
      exact .inl ⟨seg, hseg, rfl⟩
    · rw [hopen] at hclosed
      cases hclosed
    · exact .inr hstored

section Runs

def smallBuffers : Buffers := ⟨8, (min 8 ·), fun _ => Nat.min_le_right _ _, fun _ => Nat.min_le_left _ _, by decide⟩

def smallSettings (_ : Bool) : Settings := ⟨⟨0, 0, 0, 0, false, 0⟩, 7, 2⟩

def runs (side : Bool) (task count : ℕ) : List Step := List.replicate count (.run side task 0 false)

def sending : List Step :=
  [call false (.write [1, 2, 3, 4])] ++ runs false 0 6 ++ [call false (.tick 0)] ++ runs false 1 9 ++
    [input true 0 0] ++ runs true 0 4

def reading : List Step :=
  sending ++ [call true (.read 1)] ++ runs true 1 4 ++ [input true 1 0] ++ runs true 2 4 ++ [input true 0 0] ++
    runs true 3 4 ++ [call true (.read 8)] ++ runs true 4 3 ++ [call true (.read 8)] ++ runs true 5 4 ++
    [call true (.tick 0)] ++ runs true 6 9 ++ [input false 0 0] ++ runs false 2 5

theorem delivers_reading : ∃ w, Run (step smallSettings smallBuffers) (orderly · ·) (start smallSettings) reading w ∧
    (∀ side, (w side).conn.accepted.length < 2 ^ 31) ∧
    (w true).conn.returned <+: (w false).conn.accepted.flatten ∧ (w true).conn.returned = [1, 2, 3, 4] ∧
    (w false).conn.sendingWorker.window.cache = [] := by
  refine (Run.exists_of_decideWhile (P := fun w => (∀ side, (w side).conn.accepted.length < 2 ^ 31) ∧
    (w true).conn.returned = [1, 2, 3, 4] ∧ (w false).conn.sendingWorker.window.cache = []) ?_).imp
    fun w ⟨hrun, hcount, hreturned, hcache⟩ => ⟨hrun, hcount, (delivers hrun hcount true).1, hreturned, hcache⟩
  decide +kernel

/-- One `Read` takes the second segment while another one still holds the first: what is left of the first is lost. -/
def overlapping : List Step :=
  sending ++ [call true (.read 1)] ++ runs true 1 3 ++ [input true 1 0] ++ runs true 2 4 ++ [call true (.read 1)] ++
    runs true 3 3 ++ runs true 1 1 ++ runs true 3 1 ++ [call true (.read 8)] ++ runs true 4 3

/-- A `Read` has passed its check when the connection is closed and terminated; what was left over is released under it. -/
def terminating : List Step :=
  sending ++ [call true (.read 1)] ++ runs true 1 4 ++ [input true 1 0] ++ runs true 2 4 ++ [call true (.read 8)] ++
    runs true 3 1 ++ [call true .close] ++ runs true 4 2 ++ [call true (.tick 0)] ++ runs true 5 11 ++
    [call true (.tick 9000)] ++ runs true 6 7 ++ runs true 7 2 ++ runs true 3 3

def LosesByte (acts : List Step) : Prop :=
  ∃ w, Run (step smallSettings smallBuffers) anyStep (start smallSettings) acts w ∧
    (∀ side, (w side).conn.accepted.length < 2 ^ 31) ∧ (w true).conn.returned = [1, 3, 4] ∧
    (w false).conn.accepted.flatten = [1, 2, 3, 4]

theorem reads_lose_byte : LosesByte overlapping ∧ LosesByte terminating := by
  refine ⟨Run.exists_of_decide ?_, Run.exists_of_decide ?_⟩
  · decide +kernel
  · decide +kernel

end Runs

end World

end Hydracore.Kcp
