import Hydracore.Parasite.Datagram.Integrity

namespace Hydracore.Parasite.Datagram

open Pending Systems List

variable {Addr : Type} {own : UInt64} {pending pending' : List Pending} {now : ℤ}

def collectorsOf (own : UInt64) (pending : List Pending) : List Pending := pending.filter fun q => q.packetID = own

def others (own packetID : UInt64) (now : ℤ) (pending : List Pending) : ℕ :=
  pending.countP fun q => q.packetID ≠ own && q.packetID ≠ packetID && now < q.expiresAt

theorem mem_collectorsOf {q : Pending} : q ∈ collectorsOf own pending ↔ q ∈ pending ∧ q.packetID = own := by
  simp [collectorsOf]

theorem collectorsOf_survivors (own packetID : UInt64) (now : ℤ) {pending : List Pending}
    (hlive : ∀ q ∈ collectorsOf own pending, q.packetID = packetID ∨ now < q.expiresAt) :
    collectorsOf own (pending.filter (survives packetID now)) = collectorsOf own pending := by
  unfold collectorsOf
  rw [filter_filter]
  apply filter_congr
  intro q hq
  by_cases hown : q.packetID = own
  · have := hlive q (mem_collectorsOf.mpr ⟨hq, hown⟩)
    simpa [hown, survives] using this
  · simp [hown]

theorem makeRoom_of_few {packetID : UInt64} (hone : (collectorsOf own pending).length ≤ 1)
    (hnone : ∀ q ∈ pending, q.packetID ≠ packetID) (hroom : others own packetID now pending < 15) :
    makeRoom (pending.filter (survives packetID now)) = pending.filter (survives packetID now) := by
  have hsplit := length_eq_countP_add_countP (fun q : Pending => decide (q.packetID = own))
    (l := pending.filter (survives packetID now))
  have hown : (pending.filter (survives packetID now)).countP (fun q => q.packetID = own) ≤ 1 := by
    rw [collectorsOf, ← countP_eq_length_filter] at hone
    exact (filter_sublist.countP_le ..).trans hone
  have hother : (pending.filter (survives packetID now)).countP (fun q => ¬ decide (q.packetID = own) = true) ≤
      others own packetID now pending := by
    rw [countP_filter]
    apply countP_mono_left
    intro q hq h
    have := hnone q hq
    simpa [survives, this] using h
  rw [makeRoom, if_neg]
  simp only [maxPendingDatagrams]
  omega

variable {f : Frame Addr}

theorem collectorsOf_assemble (hid : f.packetID ≠ own)
    (hone : (collectorsOf own pending).length ≤ 1) (hlive : ∀ q ∈ collectorsOf own pending, now < q.expiresAt)
    (hroom : f.total = 1 ∨ others own f.packetID now pending < 15) :
    collectorsOf own (assemble pending now f).1 = collectorsOf own pending := by
  unfold assemble
  split_ifs with ht
  · rfl
  have hsurvivors := collectorsOf_survivors own f.packetID now fun q hq => .inr (hlive q hq)
  have hfor {r : Option ℕ} {kept : List Pending} (h : pendingFor pending f.packetID f.total now = (kept, r)) :
      collectorsOf own kept = collectorsOf own pending := by
    obtain ⟨i, q, rfl, -⟩ | ⟨hnone, rfl, -⟩ := pendingFor_cases h
    · exact hsurvivors
    · rw [makeRoom_of_few hone hnone (hroom.resolve_left ht), collectorsOf, filter_append]
      exact (congrArg₂ _ hsurvivors (by simp [created, hid])).trans (append_nil _)
  rcases hcollect : collect pending f.packetID f.total f.index f.fragment now with ⟨pending', out⟩
  obtain ⟨r, hf, -, -⟩ | ⟨kept, i, q, hf, hq, -, hend⟩ := collect_cases hcollect
  · exact hfor hf
  · have hset : collectorsOf own (kept.set i (q.store f.index f.fragment)) = collectorsOf own pending := by
      have hne : q.packetID ≠ own := fun h => hid ((pendingFor_packetID hf hq).symm.trans h)
      exact (filter_set_of_not hq (decide_eq_false hne) (decide_eq_false hne)).trans (hfor hf)
    have hdrop : collectorsOf own (dropPending (kept.set i (q.store f.index f.fragment)) f.packetID) =
        collectorsOf own pending := by
      refine (filter_eraseP_of_disjoint ?_ _).trans hset
      intro x hx
      have : x.packetID = f.packetID := by simpa using hx
      simp [this, hid]
    obtain ⟨-, rfl, -⟩ | ⟨-, -, rfl, -⟩ | ⟨-, -, rfl, -⟩ := hend
    · exact hdrop
    · exact hset
    · exact hdrop

inductive Gathering (d : Written) (window : Set ℤ) : List ℕ → List Pending → Prop
  | absent {pending : List Pending} (none : collectorsOf d.packetID pending = []) : Gathering d window [] pending
  | present {pending : List Pending} {done : List ℕ} {q : Pending} (sole : collectorsOf d.packetID pending = [q])
      (collects : Collects d q) (free : ∀ i < d.pieces.length, i ∉ done → q.fragments[i]? = some none)
      (missing : q.fragments.countP Option.isNone + done.length = d.pieces.length)
      (due : ∀ now ∈ window, now < q.expiresAt) (some : done ≠ []) : Gathering d window done pending

section

variable {d : Written} {window : Set ℤ} {done : List ℕ}

section

variable (h : Gathering d window done pending)
include h

theorem Gathering.congr (heq : collectorsOf d.packetID pending' = collectorsOf d.packetID pending) :
    Gathering d window done pending' := by
  cases h with
  | absent none => exact .absent (heq.trans none)
  | present sole collects free missing due some => exact .present (heq.trans sole) collects free missing due some

theorem Gathering.other (hid : f.packetID ≠ d.packetID)
    (hnow : now ∈ window) (hroom : f.total = 1 ∨ others d.packetID f.packetID now pending < 15) :
    Gathering d window done (assemble pending now f).1 := by
  refine h.congr (collectorsOf_assemble hid ?_ ?_ hroom)
  · cases h with
    | absent none => simp [none]
    | present sole => simp [sole]
  · intro q hq
    cases h with
    | absent none =>
      rw [none] at hq
      cases hq
    | present sole _ _ _ due =>
      rw [sole, mem_singleton] at hq
      exact hq ▸ due now hnow

theorem Gathering.pendingFor {total : UInt8}
    (ht : total.toNat = d.pieces.length) (hdue : ∀ t ∈ window, t < now + datagramReassemblyTimeout) :
    ∃ kept i q, pendingFor pending d.packetID total now = (kept, some i) ∧ kept[i]? = some q ∧
      collectorsOf d.packetID kept = [q] ∧ Collects d q ∧
      (∀ i < d.pieces.length, i ∉ done → q.fragments[i]? = some none) ∧
      q.fragments.countP Option.isNone + done.length = d.pieces.length ∧ ∀ t ∈ window, t < q.expiresAt := by
  have hsurvivors : collectorsOf d.packetID (pending.filter (survives d.packetID now)) = collectorsOf d.packetID pending :=
    collectorsOf_survivors _ _ _ fun q hq => .inl (mem_collectorsOf.mp hq).2
  rcases hfor : Pending.pendingFor pending d.packetID total now with ⟨kept, r⟩
  have hcases := pendingFor_cases hfor
  cases h with
  | absent none =>
    obtain ⟨i, q, rfl, hq, hid, -⟩ | ⟨-, rfl, rfl⟩ := hcases
    · have hmem := mem_collectorsOf.mpr ⟨mem_of_getElem? hq, hid⟩
      rw [hsurvivors, none] at hmem
      cases hmem
    · refine ⟨_, _, created d.packetID total now, rfl, getElem?_concat_length, ?_, collects_created ht now,
        ?_, ?_, hdue⟩
      · have hkept : collectorsOf d.packetID (makeRoom (pending.filter (survives d.packetID now))) = [] := by
          have hsub := (makeRoom_sublist (pending.filter (survives d.packetID now))).filter
            (fun q => q.packetID = d.packetID)
          exact eq_nil_of_sublist_nil ((hsurvivors.trans none) ▸ hsub)
        rw [collectorsOf, filter_append]
        exact (congrArg₂ _ hkept (by simp [created])).trans (nil_append _)
      · intro i hi _
        simp [created, ht, hi]
      · simp [created, ht, countP_replicate]
  | @present _ _ q sole collects free missing due some =>
    obtain ⟨i, q', rfl, hq, hid, rfl⟩ | ⟨hnone, -, -⟩ := hcases
    · have hmem := mem_collectorsOf.mpr ⟨mem_of_getElem? hq, hid⟩
      rw [hsurvivors, sole, mem_singleton] at hmem
      subst hmem
      have htotal : q'.total = total := UInt8.toNat_inj.mp (collects.total.trans ht.symm)
      exact ⟨_, i, q', by rw [if_pos htotal], hq, hsurvivors.trans sole, collects, free, missing, due⟩
    · have hmem : q ∈ collectorsOf d.packetID pending := by simp [sole]
      exact absurd (mem_collectorsOf.mp hmem).2 (hnone q (mem_collectorsOf.mp hmem).1)

theorem Gathering.arrival (hf : f.Of d)
    (hnew : f.index.toNat ∉ done) (hdue : ∀ t ∈ window, t < now + datagramReassemblyTimeout) :
    (done.length + 1 = d.pieces.length → (assemble pending now f).2 = some d.payload) ∧
    (done.length + 1 < d.pieces.length → (assemble pending now f).2 = none ∧
      Gathering d window (done ++ [f.index.toNat]) (assemble pending now f).1) := by
  unfold assemble
  split_ifs with ht
  · have hlen : 1 = d.pieces.length := by rw [← hf.2.1, ht]; rfl
    exact ⟨fun _ => congrArg some (hf.payload_eq ht), fun h => by omega⟩
  obtain ⟨hid, htotal, hpiece⟩ := hf
  rw [hid]
  obtain ⟨kept, i, q, hfor, hq, hsole, hcollects, hfree, hmissing, hqdue⟩ := h.pendingFor htotal hdue
  have hindex : f.index.toNat < d.pieces.length := getElem?_lt hpiece
  have hslot := hfree _ hindex hnew
  have hstored := hcollects.store hpiece hslot
  have hcount : (q.store f.index f.fragment).remaining.toNat + (done.length + 1) = d.pieces.length := by
    have := countP_isNone_set hslot f.fragment
    rw [hstored.remaining]
    change (q.fragments.set f.index.toNat (some f.fragment)).countP Option.isNone + _ = _
    omega
  rcases hcollect : collect pending d.packetID f.total f.index f.fragment now with ⟨pending', out⟩
  obtain ⟨r, hfor', -, hfilled⟩ | ⟨kept', i', q', hfor', hq', -, hend⟩ := collect_cases hcollect
  · obtain ⟨rfl, rfl⟩ := Prod.mk.inj (hfor.symm.trans hfor')
    have := hfilled i q rfl hq
    simp [hslot] at this
  · obtain ⟨rfl, hi⟩ := Prod.mk.inj (hfor.symm.trans hfor')
    cases hi
    cases hq.symm.trans hq'
    have hleft := UInt8.lt_iff_toNat_lt (a := 0) (b := (q.store f.index f.fragment).remaining)
    rw [UInt8.toNat_zero] at hleft
    obtain ⟨hbig, -, -⟩ | ⟨-, hrem, rfl, rfl⟩ | ⟨-, hdone, rfl, rfl⟩ := hend
    · exact absurd hstored.size_le (Nat.not_le.mpr hbig)
    · have hpos := hleft.mp hrem
      refine ⟨fun hlast => by omega, fun _ => ⟨rfl, .present ?_ hstored ?_ ?_
        hqdue (by simp)⟩⟩
      · exact filter_set_of_singleton hq (decide_eq_true hcollects.packetID) (decide_eq_true hstored.packetID) hsole
      · intro j hj hjdone
        rw [mem_append, mem_singleton, not_or] at hjdone
        exact (getElem?_set_ne (Ne.symm hjdone.2)).trans (hfree j hj hjdone.1)
      · rw [← hstored.remaining, length_append, length_singleton]
        exact hcount
    · refine ⟨fun _ => congrArg some (hstored.complete hdone), fun hmore => ?_⟩
      exact absurd (hleft.mpr (by omega)) hdone

end

end

end Hydracore.Parasite.Datagram
