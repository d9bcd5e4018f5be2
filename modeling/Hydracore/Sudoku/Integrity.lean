import Hydracore.Sudoku.Records
import Hydracore.Systems.Tasks

namespace Hydracore.Sudoku

open Formats Systems List

namespace Sender

variable {s : Sender} {record : Sealed}

def countersFresh (s : Sender) : Bool :=
  s.log.all (fun r => decide (r.epoch ≠ s.sendEpoch)) ||
    s.log.getLast?.any (fun r => decide (r.epoch = s.sendEpoch)) &&
      s.log.all fun r => decide (r.epoch ≠ s.sendEpoch ∨ r.seq ≠ s.sendSeq ∧ r.seq ≠ s.sendSeq + 1)

/-- A header is used once, the one after it only by the next record, and the next record has that or a new epoch. -/
structure Ordered (s : Sender) : Prop where
  distinct : (s.log.map Sealed.header).Nodup
  next : ∀ (i j : ℕ) (a b : Sealed), s.log[i]? = some a → s.log[j]? = some b → b.epoch = a.epoch → b.seq = a.seq + 1 → j = i + 1
  follows : ∀ r : Sealed, s.log.getLast? = some r → s.sendEpoch = r.epoch ∧ s.sendSeq = r.seq + 1 ∨ s.sendEpoch = r.epoch + 1

theorem epoch_ne_succ (epoch : UInt32) : epoch ≠ epoch + 1 := by
  intro h
  have hnat := congrArg UInt32.toNat h
  simp only [UInt32.toNat_add, UInt32.reduceToNat] at hnat
  omega

theorem seq_ne_succ (seq : UInt64) : seq ≠ seq + 1 := by
  intro h
  have hnat := congrArg UInt64.toNat h
  simp only [UInt64.toNat_add, UInt64.reduceToNat] at hnat
  omega

section

variable (s : Sender) (ku : Int64)

theorem bump_log (added : ℕ) (nextSeq : Option UInt64) :
    (s.maybeBumpSendEpoch ku added nextSeq).1.log = s.log := by
  simp only [maybeBumpSendEpoch]
  split_ifs
  · rfl
  · rfl
  · cases nextSeq <;> rfl

theorem log_writeChunk (nextSeq : Option UInt64) (sent : Bool) :
    (s.writeChunk ku nextSeq sent).log = s.log ++ [⟨s.sendEpoch, s.sendSeq, s.writing.take maxPlain⟩] := by
  simp only [writeChunk]
  split_ifs
  · exact bump_log _ _ _ _
  · exact bump_log _ _ _ _
  · rfl

theorem bump_counters (added : ℕ) (nextSeq : Option UInt64) :
    (s.maybeBumpSendEpoch ku added nextSeq).1.sendEpoch = s.sendEpoch ∧
      (s.maybeBumpSendEpoch ku added nextSeq).1.sendSeq = s.sendSeq ∨
    (s.maybeBumpSendEpoch ku added nextSeq).1.sendEpoch = s.sendEpoch + 1 := by
  simp only [maybeBumpSendEpoch]
  split_ifs
  · exact .inl ⟨rfl, rfl⟩
  · exact .inl ⟨rfl, rfl⟩
  · cases nextSeq <;> exact .inr rfl

theorem counters_writeChunk (nextSeq : Option UInt64) (sent : Bool) :
    (s.writeChunk ku nextSeq sent).sendEpoch = s.sendEpoch ∧
      (s.writeChunk ku nextSeq sent).sendSeq = s.sendSeq + 1 ∨
    (s.writeChunk ku nextSeq sent).sendEpoch = s.sendEpoch + 1 := by
  simp only [writeChunk]
  split_ifs
  · exact bump_counters _ _ _ _
  · exact bump_counters _ _ _ _
  · exact .inl ⟨rfl, rfl⟩

end

theorem countersFresh_iff : s.countersFresh = true ↔ ∀ r ∈ s.log, r.epoch = s.sendEpoch →
    (r.seq ≠ s.sendSeq ∧ r.seq ≠ s.sendSeq + 1) ∧ ∃ last, s.log.getLast? = some last ∧ last.epoch = s.sendEpoch := by
  simp only [countersFresh, Bool.or_eq_true, Bool.and_eq_true, all_eq_true, decide_eq_true_eq, Option.any_eq_true]
  constructor
  · rintro (hnew | ⟨hlast, hfresh⟩) r hr hepoch
    · exact absurd hepoch (hnew r hr)
    · exact ⟨(hfresh r hr).resolve_left (not_not.mpr hepoch), hlast⟩
  · intro h
    by_cases hused : ∃ r ∈ s.log, r.epoch = s.sendEpoch
    · obtain ⟨r, hr, hepoch⟩ := hused
      refine .inr ⟨(h r hr hepoch).2, fun r hr => ?_⟩
      by_cases hsame : r.epoch = s.sendEpoch
      · exact .inr (h r hr hsame).1
      · exact .inl hsame
    · exact .inl fun r hr hepoch => hused ⟨r, hr, hepoch⟩

theorem Ordered.index_eq (h : Ordered s) {i j : ℕ} {a b : Sealed} (ha : s.log[i]? = some a) (hb : s.log[j]? = some b)
    (hepoch : a.epoch = b.epoch) (hseq : a.seq = b.seq) : i = j := by
  have hi := getElem?_lt ha
  apply (getElem?_inj (by rwa [length_map]) h.distinct).mp
  rw [getElem?_map, getElem?_map, ha, hb, Option.map_some, Option.map_some, Sealed.header, Sealed.header,
    hepoch, hseq]

theorem Ordered.writeChunk (h : Ordered s) (hfresh : s.countersFresh = true) (ku : Int64) (nextSeq : Option UInt64)
    (sent : Bool) : Ordered (s.writeChunk ku nextSeq sent) := by
  rw [countersFresh_iff] at hfresh
  have hlog := log_writeChunk s ku nextSeq sent
  have hcounters := counters_writeChunk s ku nextSeq sent
  generalize s.writeChunk ku nextSeq sent = s' at *
  generalize hnew : (⟨s.sendEpoch, s.sendSeq, s.writing.take maxPlain⟩ : Sealed) = new at *
  have hepoch : new.epoch = s.sendEpoch := by rw [← hnew]
  have hseq : new.seq = s.sendSeq := by rw [← hnew]
  refine ⟨?_, ?_, ?_⟩
  · rw [hlog, map_append, nodup_append]
    refine ⟨h.distinct, nodup_singleton _, ?_⟩
    intro header hheader other hother heq
    obtain ⟨r, hr, rfl⟩ := mem_map.mp hheader
    obtain rfl := mem_singleton.mp hother
    obtain ⟨he, hq⟩ := Prod.mk.inj heq
    exact (hfresh r hr (he.trans hepoch)).1.1 (hq.trans hseq)
  · intro i j a b ha hb hab hsucc
    rw [hlog] at ha hb
    rcases getElem?_concat_cases ha with hold | ⟨rfl, rfl⟩
    · rcases getElem?_concat_cases hb with hold' | ⟨rfl, rfl⟩
      · exact h.next i j a b hold hold' hab hsucc
      · -- the new record follows `a`, so `a` has the header of the last one
        obtain ⟨last, hlast, hlastEpoch⟩ := (hfresh a (mem_of_getElem? hold) (hab.symm.trans hepoch)).2
        have hlastSeq : s.sendSeq = last.seq + 1 := by
          rcases h.follows last hlast with hsame | hbump
          · exact hsame.2
          · exact absurd (hlastEpoch.trans hbump) (epoch_ne_succ _)
        rw [getLast?_eq_getElem?] at hlast
        have hi := h.index_eq hold hlast (by rw [← hab, hepoch, hlastEpoch])
          ((UInt64.add_left_inj 1).mp (hsucc.symm.trans (hseq.trans hlastSeq)))
        have hlt := getElem?_lt hold
        omega
    · rcases getElem?_concat_cases hb with hold | ⟨rfl, rfl⟩
      · have hfar := (hfresh b (mem_of_getElem? hold) (hab.trans hepoch)).1.2
        exact absurd (hsucc.trans (by rw [hseq])) hfar
      · exact absurd hsucc (seq_ne_succ _)
  · intro r hr
    rw [hlog, getLast?_concat] at hr
    cases hr
    rw [hepoch, hseq]
    exact hcounters

end Sender

namespace Receiver

variable {cipher : Cipher} {log : List Sealed} {r r' : Receiver}

structure Follows (log : List Sealed) (r : Receiver) : Prop where
  bytes : r.returned ++ r.readBuf = (log.take r.accepted).flatMap Sealed.plain
  bounded : r.accepted ≤ log.length
  position : r.recvInitialized = true → ∃ k record, r.accepted = k + 1 ∧ log[k]? = some record ∧
    record.epoch = r.recvEpoch ∧ record.seq + 1 = r.recvSeq

theorem Follows.append (h : Follows log r) (more : List Sealed) : Follows (log ++ more) r := by
  refine ⟨?_, ?_, fun hinit => ?_⟩
  · rw [take_append_of_le_length h.bounded]
    exact h.bytes
  · rw [length_append]
    exact Nat.le_add_right_of_le h.bounded
  · obtain ⟨k, record, hk, hrecord, hposition⟩ := h.position hinit
    exact ⟨k, record, hk, getElem?_append_of_some hrecord, hposition⟩

theorem Follows.fail (h : Follows log r) (error : ReadError) : Follows log { r with failed := some error } :=
  ⟨h.bytes, h.bounded, h.position⟩

theorem Follows.drain (h : Follows log r) (size : ℕ) : Follows log (r.drain size) := by
  unfold Receiver.drain
  split_ifs
  · exact h.fail _
  · refine ⟨?_, h.bounded, h.position⟩
    rw [← h.bytes, append_assoc, take_append_drop]

theorem Follows.accept {record : Sealed} {epoch : UInt32} {seq : UInt64} (h : Follows log r) (hempty : r.readBuf = [])
    (hrecord : log[r.accepted]? = some record) (hepoch : record.epoch = epoch) (hseq : record.seq = seq) (rest : Bytes) :
    Follows log { r.markRecvPosition epoch seq with readBuf := record.plain, wire := rest } := by
  refine ⟨?_, ?_, fun _ => ⟨r.accepted, record, rfl, hrecord, hepoch, by rw [hseq]; rfl⟩⟩
  · have hbytes := h.bytes
    rw [hempty, append_nil] at hbytes
    simp only [markRecvPosition, take_add_one, hrecord, Option.toList_some, flatMap_append, hbytes,
      flatMap_singleton]
  · exact getElem?_lt hrecord

def inStep (log : List Sealed) (r : Receiver) : Bool :=
  r.readBuf ≠ [] ||
    match readFrame r.wire with
    | some (.ok (body, _)) =>
      decide (r.recvInitialized = true ∧ ¬r.recvEpoch < epochOf body) ||
        log.zipIdx.all fun entry => decide (entry.1.header = (epochOf body, seqOf body) → entry.2 = r.accepted)
    | _ => true

theorem validateRecvPosition_eq_none {epoch : UInt32} {seq : UInt64} (hinit : r.recvInitialized = true)
    (hepoch : ¬r.recvEpoch < epoch) (h : r.validateRecvPosition epoch seq = none) :
    epoch = r.recvEpoch ∧ seq = r.recvSeq := by
  unfold validateRecvPosition at h
  rw [if_neg (by simp [hinit])] at h
  split_ifs at h with hold horder
  have heq : epoch = r.recvEpoch := UInt32.le_antisymm (UInt32.not_lt.mp hepoch) (UInt32.not_lt.mp hold)
  refine ⟨heq, ?_⟩
  by_contra hseq
  exact horder ⟨heq, hseq⟩

theorem Follows.read {size : ℕ} {s : Sender} (hs : s.Ordered) (h : Follows s.log r) (hstep : inStep s.log r = true)
    (hread : r.read cipher s.log size = some r') : Follows s.log r' := by
  unfold Receiver.read at hread
  split_ifs at hread with hfailed hbuf
  · cases hread
    exact h.drain size
  · rw [not_not] at hbuf
    split at hread
    · cases hread
    · cases hread
      exact h.fail _
    · next body rest hframe =>
      cases hread
      simp only [inStep, hbuf, hframe, ne_eq, not_true_eq_false, Bool.or_eq_true, decide_eq_true_eq, all_eq_true,
        false_or] at hstep
      unfold readBody
      split
      · exact h.fail _
      · next hvalid =>
        split
        · exact h.fail _
        · next record hopen =>
          obtain ⟨i, hi⟩ := mem_iff_getElem?.mp (mem_of_find?_eq_some hopen)
          have hheader := find?_some hopen
          rw [decide_eq_true_eq] at hheader
          obtain ⟨hepoch, hseq, -⟩ := hheader
          have hnext : i = r.accepted := by
            rcases hstep with ⟨hinit, hnew⟩ | hall
            · obtain ⟨heq, hseq'⟩ := validateRecvPosition_eq_none hinit hnew hvalid
              obtain ⟨k, before, hk, hbefore, hbeforeEpoch, hbeforeSeq⟩ := h.position hinit
              rw [hk]
              apply hs.next k i before record hbefore hi
              · rw [hepoch, heq, hbeforeEpoch]
              · rw [hseq, hseq', hbeforeSeq]
            · apply hall (record, i) (mk_mem_zipIdx_iff_getElem?.mpr hi)
              rw [Sealed.header, hepoch, hseq]
          subst hnext
          exact (h.accept hbuf hi hepoch hseq rest).drain size

end Receiver

namespace Channel

variable {cipher : Cipher} {c c' : Channel}

def inStep (c : Channel) : Transfer → Bool
  | .chunk .. => c.sender.countersFresh
  | .read _ => c.receiver.inStep c.sender.log
  | _ => true

structure Sound (c : Channel) : Prop where
  ordered : c.sender.Ordered
  follows : c.receiver.Follows c.sender.log

theorem sound_start (sendEpoch : UInt32) (sendSeq : UInt64) : Sound (start sendEpoch sendSeq) :=
  ⟨⟨nodup_nil, nofun, nofun⟩, ⟨rfl, Nat.le_refl _, nofun⟩⟩

theorem Sound.step {a : Transfer} (h : Sound c) (hmet : inStep c a = true) (hs : c.step cipher a = some c') :
    Sound c' := by
  cases a with simp only [Channel.step] at hs
  | write p =>
    split_ifs at hs
    cases hs
    exact ⟨⟨h.ordered.distinct, h.ordered.next, h.ordered.follows⟩, h.follows⟩
  | chunk ku nextSeq sent =>
    split_ifs at hs
    cases hs
    refine ⟨h.ordered.writeChunk hmet ku nextSeq sent, ?_⟩
    rw [Sender.log_writeChunk]
    exact h.follows.append _
  | deliver bytes =>
    cases hs
    exact ⟨h.ordered, ⟨h.follows.bytes, h.follows.bounded, h.follows.position⟩⟩
  | read size =>
    obtain ⟨receiver, hread, rfl⟩ := Option.map_eq_some_iff.mp hs
    exact ⟨h.ordered, h.follows.read h.ordered hmet hread⟩
  | close =>
    split_ifs at hs
    cases hs
    exact ⟨h.ordered, h.follows.fail _⟩

theorem returned_isPrefix {sendEpoch : UInt32} {sendSeq : UInt64} {acts : List Transfer}
    (h : Run (step cipher) (inStep · ·) (start sendEpoch sendSeq) acts c) :
    c.receiver.returned <+: c.sender.written := by
  have hsound : Sound c :=
    h.invariant .step (sound_start sendEpoch sendSeq)
  calc c.receiver.returned <+: c.receiver.returned ++ c.receiver.readBuf := List.prefix_append _ _
    _ = (c.sender.log.take c.receiver.accepted).flatMap Sealed.plain := hsound.follows.bytes
    _ <+: c.sender.written := (List.take_prefix _ _).flatMap _

section Runs

def plainCipher : Cipher := fun _ _ plain => plain ++ List.replicate overhead 0

def writes (plain : Bytes) (keyUpdateAfterBytes : Int64) (nextSeq : UInt64) : List Transfer :=
  [.write plain, .chunk keyUpdateAfterBytes (some nextSeq) true]

def arrives (epoch : UInt32) (seq : UInt64) (plain : Bytes) : Transfer :=
  .deliver (plainCipher.frame ⟨epoch, seq, plain⟩)

def changing : List Transfer :=
  writes [1, 2] 3 40 ++ writes [3] 3 50 ++ writes [4] 3 60 ++
    [arrives 5 9 [1, 2], .read 1, arrives 5 10 [3], .read 8, .read 8, arrives 6 50 [4], .read 8, arrives 5 10 [3], .read 8]

theorem returned_isPrefix_changing : ∃ c : Channel,
    Run (step plainCipher) (inStep · ·) (start 5 9) changing c ∧ c.receiver.returned <+: c.sender.written ∧
    c.receiver.returned = [1, 2, 3, 4] ∧ c.receiver.failed = some (.replayedEpoch 5 6) := by
  refine (Run.exists_of_decideWhile ?_).imp fun c ⟨hrun, hc⟩ => ⟨hrun, returned_isPrefix hrun, hc⟩
  decide +kernel

theorem returned_skips : (∃ c : Channel, Run (step plainCipher) anyStep (start 5 9)
      (writes [1] 0 40 ++ writes [2] 0 40 ++ [arrives 5 10 [2], .read 8]) c ∧
      c.receiver.failed = none ∧ c.receiver.returned = [2] ∧ c.sender.written = [1, 2]) ∧
    ∃ c : Channel, Run (step plainCipher) anyStep (start 5 9)
      (writes [1] 2 40 ++ writes [2] 2 40 ++ writes [3] 2 40 ++ [arrives 5 9 [1], .read 8, arrives 6 40 [3], .read 8]) c ∧
      c.receiver.failed = none ∧ c.receiver.returned = [1, 3] ∧ c.sender.written = [1, 2, 3] := by
  refine ⟨Run.exists_of_decide ?_, Run.exists_of_decide ?_⟩
  · decide +kernel
  · decide +kernel

end Runs

end Channel

end Hydracore.Sudoku
