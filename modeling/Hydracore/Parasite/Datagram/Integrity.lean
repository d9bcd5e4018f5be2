import Hydracore.Parasite.Datagram.Collecting
import Hydracore.Parasite.Datagram.Framing
import Hydracore.Systems.Runs

namespace Hydracore.Parasite.Datagram

open Formats Pending Systems List Option

variable {Addr : Type} {S : AddrSerializer Addr} {index total : UInt8} {fragment : Bytes}

@[ext]
structure Written where
  packetID : UInt64
  pieces : List Bytes
  small : pieces.flatten.length ≤ maxDatagramPayload

def Written.payload (d : Written) : Bytes := d.pieces.flatten

def Frame.Of (f : Frame Addr) (d : Written) : Prop :=
  f.packetID = d.packetID ∧ f.total.toNat = d.pieces.length ∧ d.pieces[f.index.toNat]? = some f.fragment

structure Collects (d : Written) (q : Pending) : Prop where
  packetID : q.packetID = d.packetID
  total : q.total.toNat = d.pieces.length
  fits : Fits q.fragments d.pieces
  remaining : q.remaining.toNat = q.fragments.countP Option.isNone
  size : q.size = (q.fragments.map slotLength).sum

variable {d : Written} {q : Pending} {written : List (Sender S × Bytes)}

theorem collects_created (ht : total.toNat = d.pieces.length) (now : ℤ) :
    Collects d (created d.packetID total now) where
  packetID := rfl
  total := ht
  fits := by
    rw [created, ht]
    exact Fits.empty d.pieces
  remaining := by simp [created, countP_replicate]
  size := by simp [created, slotLength]

theorem Collects.empty_slot (h : Collects d q) (hi : d.pieces[index.toNat]? = some fragment)
    (hfree : (q.fragments[index.toNat]?).any isSome = false) : q.fragments[index.toNat]? = some none := by
  have hlen : index.toNat < q.fragments.length := by
    rw [Forall₂.length_eq h.fits]
    exact getElem?_lt hi
  rw [getElem?_eq_getElem hlen] at hfree ⊢
  simpa using hfree

theorem countP_isNone_set {slots : List (Option Bytes)} {i : ℕ} (h : slots[i]? = some none) (x : Bytes) :
    (slots.set i (some x)).countP isNone + 1 = slots.countP isNone := by
  simpa using Systems.countP_set_add (p := isNone) (b := some x) h

theorem Collects.store (h : Collects d q) (hi : d.pieces[index.toNat]? = some fragment)
    (hfree : q.fragments[index.toNat]? = some none) : Collects d (q.store index fragment) where
  packetID := h.packetID
  total := h.total
  fits := h.fits.fill hi
  remaining := by
    have hcount := countP_isNone_set hfree fragment
    have hone : (1 : UInt8) ≤ q.remaining := by
      rw [UInt8.le_iff_toNat_le, h.remaining, ← hcount]
      exact Nat.le_add_left 1 _
    change (q.remaining - 1).toNat = _
    rw [UInt8.toNat_sub_of_le _ _ hone, h.remaining, ← hcount]
    rfl
  size := by
    change q.size + fragment.length = _
    rw [h.size]
    exact (sum_slotLength_set hfree fragment).symm

theorem Collects.size_le (h : Collects d q) : q.size ≤ maxDatagramPayload := by
  rw [h.size]
  exact h.fits.size_le.trans d.small

theorem Collects.complete (h : Collects d q) (hdone : ¬ q.remaining > 0) : q.payload = d.payload := by
  apply h.fits.complete
  rw [← h.remaining]
  have hzero := UInt8.le_iff_toNat_le.mp (UInt8.not_lt.mp hdone)
  exact Nat.le_zero.mp hzero

variable {f : Frame Addr}

theorem Frame.Of.payload_eq (hf : f.Of d) (ht : f.total = 1) : f.fragment = d.payload := by
  obtain ⟨-, htotal, hpiece⟩ := hf
  rw [ht] at htotal
  obtain ⟨piece, hd⟩ := length_eq_one_iff.mp htotal.symm
  have hzero : f.index.toNat = 0 := by
    have := UInt8.lt_iff_toNat_lt.mp f.inRange
    rw [ht] at this
    exact Nat.lt_one_iff.mp this
  rw [hzero, hd] at hpiece
  rw [Written.payload, hd, flatten_singleton]
  exact (some.inj hpiece).symm

def Sorted (ds : Set Written) (pending : List Pending) : Prop := ∀ q ∈ pending, ∃ d ∈ ds, Collects d q

section

variable {ds : Set Written} {pending pending' : List Pending} {now : ℤ}

theorem Sorted.sublist (h : Sorted ds pending) (hsub : pending'.Sublist pending) : Sorted ds pending' :=
  fun q hq => h q (hsub.subset hq)

theorem makeRoom_sublist (pending : List Pending) : (makeRoom pending).Sublist pending := by
  unfold makeRoom
  split_ifs
  · exact eraseIdx_sublist ..
  · exact Sublist.refl _

theorem Sorted.pendingFor (h : Sorted ds pending) {d : Written} (hd : d ∈ ds) (ht : total.toNat = d.pieces.length)
    {r : Option ℕ} (hfor : pendingFor pending d.packetID total now = (pending', r)) : Sorted ds pending' := by
  obtain ⟨i, q, rfl, -⟩ | ⟨-, rfl, -⟩ := pendingFor_cases hfor
  · exact h.sublist filter_sublist
  · exact forall_mem_concat (h.sublist ((makeRoom_sublist _).trans filter_sublist)) ⟨d, hd, collects_created ht now⟩

theorem Sorted.assemble (h : Sorted ds pending) (now : ℤ)
    (hdistinct : ∀ d ∈ ds, ∀ d' ∈ ds, d.packetID = d'.packetID → d = d') {d : Written} (hd : d ∈ ds) (hf : f.Of d) :
    Sorted ds (assemble pending now f).1 ∧ ∀ p, (assemble pending now f).2 = some p → p = d.payload := by
  unfold Datagram.assemble
  split_ifs with ht
  · exact ⟨h, fun p hp => (some.inj hp) ▸ hf.payload_eq ht⟩
  · obtain ⟨hid, htotal, hpiece⟩ := hf
    rw [hid]
    rcases hcollect : collect pending d.packetID f.total f.index f.fragment now with ⟨pending', out⟩
    obtain ⟨r, hfor, rfl, -⟩ | ⟨kept, i, q, hfor, hq, hfree, hend⟩ := collect_cases hcollect
    · exact ⟨h.pendingFor hd htotal hfor, fun p hp => by cases hp⟩
    · have hkept := h.pendingFor hd htotal hfor
      obtain ⟨d', hd', hq'⟩ := hkept q (mem_of_getElem? hq)
      obtain rfl := hdistinct d' hd' d hd (hq'.packetID.symm.trans (pendingFor_packetID hfor hq))
      have hstored := hq'.store hpiece (hq'.empty_slot hpiece hfree)
      have hset : Sorted ds (kept.set i (q.store f.index f.fragment)) := forall_mem_set hkept ⟨d', hd, hstored⟩
      obtain ⟨-, rfl, rfl⟩ | ⟨-, -, rfl, rfl⟩ | ⟨-, hdone, rfl, rfl⟩ := hend
      · exact ⟨hset.sublist eraseP_sublist, fun p hp => by cases hp⟩
      · exact ⟨hset, fun p hp => by cases hp⟩
      · exact ⟨hset.sublist eraseP_sublist, fun p hp => some.inj hp ▸ hstored.complete hdone⟩

end

theorem written_of_frame {a : Sender S} {p : Bytes} (hf : f ∈ a.frames p) :
    ∃ d : Written, d.packetID = a.nextPacket + 1 ∧ d.pieces = a.pieces p ∧ d.payload = p ∧ f.Of d := by
  unfold Sender.frames at hf
  split at hf
  · rename_i packets hwrite
    obtain ⟨dest, hdest, hbudget, hsmall, hcount, rfl⟩ := Sender.write_ok hwrite
    have hflat : (a.pieces p).flatten = p := by
      rw [Sender.pieces, ← flatMap_def, flatMap_chunk, take_of_length_le (length_le_chunkCount hbudget _)]
    obtain ⟨raw, hraw, hparse⟩ := mem_filterMap.mp hf
    obtain ⟨i, hi, rfl⟩ := List.mem_map.mp hraw
    rw [mem_range] at hi
    obtain ⟨f', hf', -, -, hid, ht, hindex, hfragment⟩ := a.parse_packet hdest hi hcount
    cases hparse.symm.trans hf'
    refine ⟨⟨a.nextPacket + 1, a.pieces p, by rwa [hflat]⟩, rfl, rfl, hflat, hid, by simpa [Sender.pieces] using ht, ?_⟩
    simp only [hindex, hfragment, Sender.pieces]
    rw [getElem?_map, getElem?_range hi, map_some]
  · cases hf

def cuts (written : List (Sender S × Bytes)) : Set Written :=
  {d | ∃ w ∈ written, d.packetID = w.1.nextPacket + 1 ∧ d.pieces = w.1.pieces w.2 ∧ d.payload = w.2}

theorem cuts_distinct (hdistinct : (written.map fun w => w.1.nextPacket + 1).Nodup) :
    ∀ d ∈ cuts written, ∀ d' ∈ cuts written, d.packetID = d'.packetID → d = d' := by
  rintro d ⟨w, hw, hid, hpieces, -⟩ d' ⟨w', hw', hid', hpieces', -⟩ heq
  obtain rfl : w = w' := inj_on_of_nodup_map hdistinct hw hw' (hid.symm.trans (heq.trans hid'))
  exact Written.ext heq (hpieces.trans hpieces'.symm)

def genuine [DecidableEq Addr] (written : List (Sender S × Bytes)) : Event Addr → Bool
  | .frame _ f => written.any fun w => f ∈ w.1.frames w.2
  | _ => true

structure Intact (written : List (Sender S × Bytes)) (t : Trace) : Prop where
  sorted : Sorted (cuts written) t.receiver.pending
  queued : ∀ entry ∈ t.queued, ∃ w ∈ written, entry = (w.1.nextPacket + 1, w.2)
  waiting : ∀ p ∈ t.receiver.recvQueue, ∃ w ∈ written, p = w.2

section

variable {t v : Trace} (h : Intact written t) (hdistinct : (written.map fun w => w.1.nextPacket + 1).Nodup)
include h hdistinct

theorem Intact.frame {now : ℤ} (hf : ∃ w ∈ written, f ∈ w.1.frames w.2) (hs : t.step (.frame now f) = some v) :
    Intact written v := by
  rw [Trace.step_frame, some.injEq] at hs
  subst v
  cases hclosed : t.receiver.closed with
  | true =>
    rw [deliverFragment_closed hclosed]
    simpa using h
  | false =>
    obtain ⟨w, hw, hf⟩ := hf
    obtain ⟨d, hid, hpieces, hpayload, hof⟩ := written_of_frame hf
    have hd : d ∈ cuts written := ⟨w, hw, hid, hpieces, hpayload⟩
    obtain ⟨hsorted, hout⟩ := h.sorted.assemble now (cuts_distinct hdistinct) hd hof
    obtain ⟨hpending, -, hqueued⟩ := deliverFragment_open hclosed now f
    have hp : ∀ p, (t.receiver.deliverFragment now f).2 = some p → p = w.2 := by
      intro p hp
      rw [hqueued] at hp
      split_ifs at hp
      exact (hout p hp).trans hpayload
    constructor
    · rwa [hpending]
    · intro entry hentry
      rcases mem_append.mp hentry with hentry | hentry
      · exact h.queued entry hentry
      · obtain ⟨p, hsome, rfl⟩ := map_eq_some_iff.mp (mem_toList.mp hentry)
        exact ⟨w, hw, by rw [hp p hsome, hof.1, hid]⟩
    · intro p hmem
      rw [deliverFragment_recvQueue] at hmem
      rcases mem_append.mp hmem with hmem | hmem
      · exact h.waiting p hmem
      · exact ⟨w, hw, hp p (mem_toList.mp hmem)⟩

theorem Intact.step [DecidableEq Addr] {e : Event Addr} (he : genuine written e = true) (hs : t.step e = some v) :
    Intact written v := by
  cases e with
  | frame now f => exact h.frame hdistinct (by simpa [genuine] using he) hs
  | read =>
    cases hs
    exact ⟨h.sorted, h.queued, fun p hp => h.waiting p (mem_of_mem_tail hp)⟩
  | close =>
    cases hs
    exact ⟨nofun, h.queued, h.waiting⟩

end

theorem queued_payload_written [DecidableEq Addr] (written : List (Sender S × Bytes))
    (hdistinct : (written.map fun w => w.1.nextPacket + 1).Nodup) {events : List (Event Addr)} {t : Trace}
    (h : Run Trace.step (fun _ e => genuine written e) ⟨.new, []⟩ events t) :
    (∀ entry ∈ t.queued, ∃ w ∈ written, entry = (w.1.nextPacket + 1, w.2)) ∧
      ∀ p ∈ t.receiver.recvQueue, ∃ w ∈ written, p = w.2 := by
  have hnew : Intact written ⟨.new, []⟩ :=
    ⟨nofun, nofun, nofun⟩
  have hrun := h.invariant (fun {t e v} ht he hs => ht.step hdistinct he hs) hnew
  exact ⟨hrun.queued, hrun.waiting⟩

def ipv4Sender (n : UInt64) : Sender ipv4Serializer :=
  ⟨1, ⟨10, 0, 0, 1, 0, 53⟩, true, false, n, none, fun base h => by cases h⟩

def mixedArrivals : List (Event IPv4AddrPort) :=
  let first := (ipv4Sender 0).frames (List.replicate 1300 7)
  let second := (ipv4Sender 1).frames (List.replicate 1400 8)
  (first.drop 1 ++ second ++ first ++ second.take 1).mapIdx fun i f => .frame i f

theorem queued_payload_written_mixed : ∃ t,
    execWhile Trace.step (fun _ e => genuine [(ipv4Sender 0, List.replicate 1300 7),
      (ipv4Sender 1, List.replicate 1400 8)] e) ⟨.new, []⟩ mixedArrivals = some t ∧
    t.queued.map Prod.fst = [2, 1] ∧ ∀ entry ∈ t.queued,
      entry = (1, List.replicate 1300 7) ∨ entry = (2, List.replicate 1400 8) := by
  refine (exists_some_of_decide ?_).imp fun t ⟨ht, hids⟩ => ⟨ht, hids, fun entry hentry => ?_⟩
  · decide +kernel
  · obtain ⟨w, hw, rfl⟩ := (queued_payload_written _ (by decide +kernel) (.of_execWhile ht)).1 entry hentry
    simp only [List.mem_cons, List.not_mem_nil, or_false] at hw
    rcases hw with rfl | rfl
    · exact .inl rfl
    · exact .inr rfl

end Hydracore.Parasite.Datagram
