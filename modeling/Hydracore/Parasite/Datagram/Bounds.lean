import Hydracore.Parasite.Datagram.Integrity

namespace Hydracore.Parasite.Datagram

open Formats Pending Systems List

variable {Addr : Type} {pending pending' : List Pending} {packetID : UInt64} {total index : UInt8} {fragment : Bytes}
  {now : ℤ} {q : Pending}

structure Pending.Counted (q : Pending) : Prop where
  total : 2 ≤ q.total.toNat
  fragments : q.fragments.length = q.total.toNat
  remaining : q.remaining.toNat = q.fragments.countP Option.isNone
  size : q.size = (q.fragments.map slotLength).sum

structure Pending.Bounded (q : Pending) : Prop extends Counted q where
  missing : 1 ≤ q.remaining.toNat
  stored : q.remaining.toNat ≤ q.total.toNat - 1
  size_le : q.size ≤ maxDatagramPayload

theorem counted_created (h : 2 ≤ total.toNat) (packetID : UInt64) (now : ℤ) : (created packetID total now).Counted where
  total := h
  fragments := length_replicate
  remaining := by simp [created, countP_replicate]
  size := by simp [created, slotLength]

theorem empty_slot_of_lt (h : index.toNat < q.fragments.length)
    (hfree : (q.fragments[index.toNat]?).any Option.isSome = false) : q.fragments[index.toNat]? = some none := by
  rw [getElem?_eq_getElem h] at hfree ⊢
  simpa using hfree

theorem Pending.Counted.one_le (h : q.Counted) (hfree : q.fragments[index.toNat]? = some none) :
    1 ≤ q.remaining.toNat := by
  rw [h.remaining]
  exact countP_pos_iff.mpr ⟨none, mem_of_getElem? hfree, rfl⟩

theorem Pending.Counted.store (h : q.Counted) (hfree : q.fragments[index.toNat]? = some none) (fragment : Bytes) :
    (q.store index fragment).Counted ∧ (q.store index fragment).remaining.toNat + 1 = q.remaining.toNat := by
  have hcount := countP_isNone_set hfree fragment
  have hone : (1 : UInt8) ≤ q.remaining := UInt8.le_iff_toNat_le.mpr (h.one_le hfree)
  have hremaining : (q.store index fragment).remaining.toNat = q.remaining.toNat - 1 :=
    UInt8.toNat_sub_of_le _ _ hone
  have hpos := UInt8.le_iff_toNat_le.mp hone
  rw [UInt8.toNat_one] at hpos
  refine ⟨⟨h.total, ?_, ?_, ?_⟩, by omega⟩
  · exact length_set.trans h.fragments
  · rw [hremaining, h.remaining, ← hcount]
    rfl
  · change q.size + fragment.length = _
    rw [h.size]
    exact (sum_slotLength_set hfree fragment).symm

theorem Pending.Counted.remaining_le (h : q.Counted) : q.remaining.toNat ≤ q.total.toNat := by
  rw [h.remaining, ← h.fragments]
  exact countP_le_length

/-! ### The list of collectors -/

structure Held (pending : List Pending) : Prop where
  few : pending.length ≤ maxPendingDatagrams
  distinct : (pending.map Pending.packetID).Nodup
  bounded : ∀ q ∈ pending, q.Bounded

theorem held_nil : Held [] := ⟨Nat.zero_le _, nodup_nil, forall_mem_nil _⟩

theorem Held.sublist (h : Held pending) (hsub : pending'.Sublist pending) : Held pending' :=
  ⟨hsub.length_le.trans h.few, h.distinct.sublist (hsub.map _), fun q hq => h.bounded q (hsub.subset hq)⟩

theorem oldest_lt (h : pending ≠ []) : oldest pending < pending.length := by
  have hpos := length_pos_iff.mpr h
  have hfold : ∀ (indices : List ℕ) (start : ℕ), start < pending.length →
      (∀ index ∈ indices, index < pending.length) →
      indices.foldl (fun oldest index => if expiryAt pending index < expiryAt pending oldest then index else oldest)
        start < pending.length := by
    intro indices
    induction indices with
    | nil => exact fun start hstart _ => hstart
    | cons index indices ih =>
      intro start hstart hindices
      rw [foldl_cons]
      obtain ⟨hindex, hrest⟩ := forall_mem_cons.mp hindices
      split_ifs
      · exact ih index hindex hrest
      · exact ih start hstart hrest
  apply hfold _ 0 hpos
  intro index hindex
  have := mem_range'_1.mp hindex
  omega

theorem makeRoom_length (h : pending.length ≤ maxPendingDatagrams) : (makeRoom pending).length < maxPendingDatagrams := by
  unfold makeRoom
  split_ifs with hfull
  · have hne : pending ≠ [] := by
      rintro rfl
      exact absurd hfull (by decide)
    rw [length_eraseIdx_of_lt (oldest_lt hne)]
    have := oldest_lt hne
    omega
  · omega

theorem Held.pendingFor (h : Held pending) (htotal : 2 ≤ total.toNat) {i : ℕ}
    (hfor : pendingFor pending packetID total now = (pending', some i)) :
    ∃ q, pending'[i]? = some q ∧ q.packetID = packetID ∧ q.total = total ∧ q.Counted ∧
      pending'.length ≤ maxPendingDatagrams ∧ (pending'.map Pending.packetID).Nodup ∧
      ∀ j other, pending'[j]? = some other → j ≠ i → other.Bounded := by
  have hkept : Held (pending.filter (survives packetID now)) := h.sublist filter_sublist
  obtain ⟨j, q, rfl, hq, hid, hr⟩ | ⟨hnew, rfl, hr⟩ := pendingFor_cases hfor
  · split_ifs at hr with hqtotal
    cases hr
    refine ⟨q, hq, hid, hqtotal, (hkept.bounded q (mem_of_getElem? hq)).toCounted, hkept.few, hkept.distinct, ?_⟩
    exact fun j other hother _ => hkept.bounded other (mem_of_getElem? hother)
  · cases hr
    have hroom : Held (makeRoom (pending.filter (survives packetID now))) := hkept.sublist (makeRoom_sublist _)
    refine ⟨created packetID total now, getElem?_concat_length, rfl, rfl, counted_created htotal _ _, ?_, ?_, ?_⟩
    · rw [length_append, length_singleton]
      exact makeRoom_length hkept.few
    · rw [map_append, map_singleton, ← concat_eq_append]
      apply hroom.distinct.concat
      intro hmem
      obtain ⟨q, hq, hid⟩ := mem_map.mp hmem
      exact hnew q (mem_of_mem_filter ((makeRoom_sublist _).subset hq)) hid
    · intro j other hother hne
      rcases getElem?_concat_cases hother with hold | ⟨hj, -⟩
      · exact hroom.bounded other (mem_of_getElem? hold)
      · exact absurd hj hne

theorem Held.pendingFor_none (h : Held pending) (hfor : Pending.pendingFor pending packetID total now = (pending', none)) :
    Held pending' := by
  obtain ⟨j, q, rfl, -, -, -⟩ | ⟨-, -, hr⟩ := pendingFor_cases hfor
  · exact h.sublist filter_sublist
  · cases hr

theorem map_packetID_store {i : ℕ} (hq : pending[i]? = some q) :
    (pending.set i (q.store index fragment)).map Pending.packetID = pending.map Pending.packetID := by
  obtain ⟨hi, rfl⟩ := List.getElem?_eq_some_iff.mp hq
  have hmap : i < (pending.map Pending.packetID).length := by rwa [length_map]
  have hsame : (pending[i].store index fragment).packetID = (pending.map Pending.packetID)[i] := by
    rw [getElem_map]
    rfl
  rw [map_set, hsame, set_getElem_self]

theorem dropPending_packetID (h : (pending.map Pending.packetID).Nodup) {other : Pending}
    (hother : other ∈ dropPending pending packetID) : other.packetID ≠ packetID := by
  induction pending with
  | nil => cases hother
  | cons q pending ih =>
    rw [map_cons, nodup_cons] at h
    unfold dropPending at hother
    rw [eraseP_cons] at hother
    by_cases hid : q.packetID = packetID
    · simp only [hid, decide_true] at hother
      rintro rfl
      exact h.1 (hid ▸ mem_map_of_mem hother)
    · simp only [hid, decide_false] at hother
      rcases mem_cons.mp hother with rfl | hother
      · exact hid
      · exact ih h.2 hother

theorem Held.collect (h : Held pending) (htotal : 2 ≤ total.toNat) (hindex : index < total) {out : Option Bytes}
    (hcollect : collect pending packetID total index fragment now = (pending', out)) : Held pending' := by
  obtain ⟨r, hfor, -, hfilled⟩ | ⟨kept, i, q, hfor, hq, hfree, hcases⟩ := collect_cases hcollect
  · cases r with
    | none => exact h.pendingFor_none hfor
    | some i =>
      -- the fragment is there already, so the collector is not a new one
      obtain ⟨j, q, rfl, -⟩ | ⟨-, rfl, hr⟩ := pendingFor_cases hfor
      · exact h.sublist filter_sublist
      · cases hr
        have hempty := hfilled _ _ rfl getElem?_concat_length
        rw [created, getElem?_replicate] at hempty
        split_ifs at hempty <;> cases hempty
  · obtain ⟨q', hq', hid, hqtotal, hcounted, hfew, hdistinct, hothers⟩ := h.pendingFor htotal hfor
    cases hq.symm.trans hq'
    have hlt : index.toNat < q.fragments.length := by
      rw [hcounted.fragments, hqtotal]
      exact UInt8.lt_iff_toNat_lt.mp hindex
    obtain ⟨hstored, hremaining⟩ := hcounted.store (empty_slot_of_lt hlt hfree) fragment
    have hids : ((kept.set i (q.store index fragment)).map Pending.packetID).Nodup := by
      rw [map_packetID_store hq]
      exact hdistinct
    have hset : ∀ other ∈ kept.set i (q.store index fragment), other.packetID ≠ packetID → other.Bounded := by
      intro other hother hne
      obtain ⟨j, hj⟩ := mem_iff_getElem?.mp hother
      rcases getElem?_set_cases hj with ⟨-, rfl⟩ | ⟨hne', hold⟩
      · exact absurd hid hne
      · exact hothers j other hold hne'
    have hdrop : Held (dropPending (kept.set i (q.store index fragment)) packetID) := by
      refine ⟨?_, hids.sublist (eraseP_sublist.map _), ?_⟩
      · exact eraseP_sublist.length_le.trans (length_set.trans_le hfew)
      · exact fun other hother => hset other (mem_of_mem_eraseP hother) (dropPending_packetID hids hother)
    obtain ⟨-, rfl, -⟩ | ⟨hsize, hmissing, rfl, -⟩ | ⟨-, -, rfl, -⟩ := hcases
    · exact hdrop
    · refine ⟨length_set.trans_le hfew, hids, ?_⟩
      intro other hother
      obtain ⟨j, hj⟩ := mem_iff_getElem?.mp hother
      rcases getElem?_set_cases hj with ⟨-, rfl⟩ | ⟨hne, hold⟩
      · have hle := hcounted.remaining_le
        exact ⟨hstored, UInt8.lt_iff_toNat_lt.mp hmissing, by change _ ≤ q.total.toNat - 1; omega, Nat.not_lt.mp hsize⟩
      · exact hothers j other hold hne
    · exact hdrop

theorem two_le_total (f : Frame Addr) (h : f.total ≠ 1) : 2 ≤ f.total.toNat := by
  have hindex := UInt8.lt_iff_toNat_lt.mp f.inRange
  have hone : f.total.toNat ≠ 1 := fun heq => h (UInt8.toNat_inj.mp heq)
  omega

theorem Held.assemble (h : Held pending) (now : ℤ) (f : Frame Addr) : Held (assemble pending now f).1 := by
  unfold Datagram.assemble
  split_ifs with htotal
  · exact h
  · exact h.collect (two_le_total f htotal) f.inRange rfl

theorem Held.step {t v : Trace} {e : Event Addr} (h : Held t.receiver.pending) (hstep : t.step e = some v) :
    Held v.receiver.pending := by
  cases e with
  | frame now f =>
    rw [Trace.step_frame] at hstep
    cases hstep
    cases hclosed : t.receiver.closed with
    | true =>
      rw [deliverFragment_closed hclosed]
      exact h
    | false =>
      rw [(deliverFragment_open hclosed now f).1]
      exact h.assemble now f
  | read =>
    cases hstep
    exact h
  | close =>
    cases hstep
    exact held_nil

theorem collectors_bounded {events : List (Event Addr)} {t : Trace} (h : Run Trace.step anyStep ⟨.new, []⟩ events t) :
    Held t.receiver.pending ∧ ∀ (now : ℤ) (f : Frame Addr), f.total ≠ 1 → ∀ pending i,
      pendingFor t.receiver.pending f.packetID f.total now = (pending, some i) →
      ∃ q, pending[i]? = some q ∧ f.index.toNat < q.fragments.length ∧
        (q.fragments[f.index.toNat]? = some none → 1 ≤ q.remaining.toNat) := by
  have hheld : Held t.receiver.pending :=
    h.invariant (P := fun t => Held t.receiver.pending) (fun hheld _ hstep => hheld.step hstep) held_nil
  refine ⟨hheld, ?_⟩
  intro now f htotal pending i hfor
  obtain ⟨q, hq, -, hqtotal, hcounted, -⟩ := hheld.pendingFor (two_le_total f htotal) hfor
  refine ⟨q, hq, ?_, fun hfree => hcounted.one_le hfree⟩
  rw [hcounted.fragments, hqtotal]
  exact UInt8.lt_iff_toNat_lt.mp f.inRange

def hostileArrivals : List (Event Unit) :=
  [.frame 0 ⟨1, (), 7, 3, 0, [], by decide⟩, .frame 1 ⟨1, (), 7, 2, 1, [5], by decide⟩,
    .frame 2 ⟨1, (), 7, 3, 0, [6], by decide⟩, .frame 3 ⟨1, (), 8, 255, 254, [9], by decide⟩]

theorem collectors_bounded_hostile : ∃ t, Run Trace.step anyStep ⟨.new, []⟩ hostileArrivals t ∧
    t.receiver.pending.map Pending.remaining = [2, 254] ∧ Held t.receiver.pending := by
  refine (Run.exists_of_decide ?_).imp fun t ⟨hrun, ht⟩ => ⟨hrun, ht, (collectors_bounded hrun).1⟩
  decide +kernel

end Hydracore.Parasite.Datagram
