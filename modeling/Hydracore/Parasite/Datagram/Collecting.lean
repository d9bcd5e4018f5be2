import Hydracore.Parasite.Datagram.Frame

namespace Hydracore.Parasite.Datagram

open Formats Pending Receiver List Option

variable {pending pending' : List Pending} {packetID : UInt64} {total index : UInt8} {fragment : Bytes} {now : ℤ}

def Pending.survives (packetID : UInt64) (now : ℤ) (q : Pending) : Bool :=
  q.packetID = packetID || now < q.expiresAt

theorem sweep_concat (packetID : UInt64) (now : ℤ) (pending : List Pending) (q : Pending) :
    sweep packetID now (pending ++ [q]) = if q.packetID = packetID then
        ((sweep packetID now pending).1 ++ [q], some (sweep packetID now pending).1.length)
      else if now < q.expiresAt then ((sweep packetID now pending).1 ++ [q], (sweep packetID now pending).2)
      else sweep packetID now pending := by
  simp only [sweep, foldl_append, foldl_cons, foldl_nil]

theorem sweep_kept (packetID : UInt64) (now : ℤ) (pending : List Pending) :
    (sweep packetID now pending).1 = pending.filter (survives packetID now) := by
  induction pending using reverseRecOn with
  | nil => rfl
  | append_singleton pending q ih =>
    rw [sweep_concat, filter_append, ← ih]
    by_cases hid : q.packetID = packetID
    · simp [hid, survives]
    · by_cases hlive : now < q.expiresAt
      all_goals simp [hid, survives, hlive]

theorem sweep_found {i : ℕ} (h : (sweep packetID now pending).2 = some i) :
    ∃ q, (sweep packetID now pending).1[i]? = some q ∧ q.packetID = packetID := by
  induction pending using reverseRecOn generalizing i with
  | nil => cases h
  | append_singleton pending q ih =>
    rw [sweep_concat] at h ⊢
    split_ifs at h ⊢ with hid hlive
    · cases h
      exact ⟨q, getElem?_concat_length, hid⟩
    · obtain ⟨q', hq', hid'⟩ := ih h
      exact ⟨q', (getElem?_append_left (List.getElem?_eq_some_iff.mp hq').1).trans hq', hid'⟩
    · exact ih h

theorem sweep_missing (h : (sweep packetID now pending).2 = none) : ∀ q ∈ pending, q.packetID ≠ packetID := by
  induction pending using reverseRecOn with
  | nil => intro q hq; cases hq
  | append_singleton pending q ih =>
    rw [sweep_concat] at h
    split_ifs at h with hid hlive
    all_goals
      intro q' hq'
      rcases mem_append.mp hq' with hq' | hq'
      · exact ih h q' hq'
      · rw [mem_singleton.mp hq']
        exact hid

theorem pendingFor_cases {r : Option ℕ} (h : pendingFor pending packetID total now = (pending', r)) :
    (∃ i q, pending' = pending.filter (survives packetID now) ∧ pending'[i]? = some q ∧ q.packetID = packetID ∧
      r = if q.total = total then some i else none) ∨
    ((∀ q ∈ pending, q.packetID ≠ packetID) ∧
      pending' = makeRoom (pending.filter (survives packetID now)) ++ [created packetID total now] ∧
      r = some (makeRoom (pending.filter (survives packetID now))).length) := by
  have hkept := sweep_kept packetID now pending
  unfold pendingFor at h
  split at h
  · rename_i kept i hsweep
    rw [hsweep] at hkept
    obtain ⟨q, hq, hid⟩ := sweep_found (congrArg Prod.snd hsweep)
    rw [hsweep] at hq
    cases h
    refine .inl ⟨i, q, hkept, hq, hid, ?_⟩
    rw [hq]
    simp
  · rename_i kept hsweep
    rw [hsweep] at hkept
    cases h
    exact .inr ⟨sweep_missing (congrArg Prod.snd hsweep), by rw [← hkept], by rw [← hkept]⟩

theorem pendingFor_packetID {i : ℕ} {q : Pending} (h : pendingFor pending packetID total now = (pending', some i))
    (hq : pending'[i]? = some q) : q.packetID = packetID := by
  obtain ⟨j, q', rfl, hq', hid, hr⟩ | ⟨-, rfl, hr⟩ := pendingFor_cases h
  · split_ifs at hr
    cases hr
    exact some.inj (hq'.symm.trans hq) ▸ hid
  · cases hr
    rw [getElem?_concat_length] at hq
    exact some.inj hq ▸ rfl

theorem collect_cases {out : Option Bytes}
    (h : collect pending packetID total index fragment now = (pending', out)) :
    (∃ r, pendingFor pending packetID total now = (pending', r) ∧ out = none ∧
      ∀ i q, r = some i → pending'[i]? = some q → (q.fragments[index.toNat]?).any isSome = true) ∨
    ∃ kept i q, pendingFor pending packetID total now = (kept, some i) ∧ kept[i]? = some q ∧
      (q.fragments[index.toNat]?).any isSome = false ∧ (((q.store index fragment).size > maxDatagramPayload ∧
          pending' = dropPending (kept.set i (q.store index fragment)) packetID ∧ out = none) ∨
        (¬ (q.store index fragment).size > maxDatagramPayload ∧ (q.store index fragment).remaining > 0 ∧
          pending' = kept.set i (q.store index fragment) ∧ out = none) ∨
        (¬ (q.store index fragment).size > maxDatagramPayload ∧ ¬ (q.store index fragment).remaining > 0 ∧
          pending' = dropPending (kept.set i (q.store index fragment)) packetID ∧
          out = some (q.store index fragment).payload)) := by
  unfold collect at h
  split at h
  · rename_i kept hfor
    cases h
    exact .inl ⟨none, hfor, rfl, fun i q hi => by cases hi⟩
  · rename_i kept i hfor
    split at h
    · rename_i hmissing
      cases h
      refine .inl ⟨some i, hfor, rfl, fun j q hj hq => ?_⟩
      cases hj
      rw [hmissing] at hq
      cases hq
    · rename_i q hq
      by_cases hfilled : (q.fragments[index.toNat]?).any isSome = true
      · rw [if_pos hfilled] at h
        cases h
        refine .inl ⟨some i, hfor, rfl, fun j q' hj hq' => ?_⟩
        cases hj
        exact some.inj (hq.symm.trans hq') ▸ hfilled
      · refine .inr ⟨kept, i, q, hfor, hq, by simpa using hfilled, ?_⟩
        simp only at h
        split_ifs at h with hsize hrem
        all_goals cases h
        · exact .inl ⟨hsize, rfl, rfl⟩
        · exact .inr (.inl ⟨hsize, hrem, rfl, rfl⟩)
        · exact .inr (.inr ⟨hsize, hrem, rfl, rfl⟩)

def assemble {Addr : Type} (pending : List Pending) (now : ℤ) (f : Frame Addr) : List Pending × Option Bytes :=
  if f.total = 1 then (pending, some f.fragment)
  else collect pending f.packetID f.total f.index f.fragment now

theorem deliver_recvQueue (a : Receiver) (payload : Bytes) :
    (a.deliver payload).1.recvQueue = a.recvQueue ++ (a.deliver payload).2.toList := by
  unfold deliver
  split_ifs
  · rfl
  · exact (append_nil _).symm

theorem deliver_eq (a : Receiver) (payload : Bytes) :
    (a.deliver payload).1.pending = a.pending ∧ (a.deliver payload).1.closed = a.closed ∧
      (a.deliver payload).2 = if a.recvQueue.length < datagramReceiveQueue then some payload else none := by
  unfold deliver
  split_ifs
  · exact ⟨rfl, rfl, rfl⟩
  · exact ⟨rfl, rfl, rfl⟩

variable {Addr : Type}

theorem deliverFragment_open {a : Receiver} (hopen : a.closed = false) (now : ℤ) (f : Frame Addr) :
    (a.deliverFragment now f).1.pending = (assemble a.pending now f).1 ∧
      (a.deliverFragment now f).1.closed = false ∧ (a.deliverFragment now f).2 =
        if a.recvQueue.length < datagramReceiveQueue then (assemble a.pending now f).2 else none := by
  unfold deliverFragment assemble
  rw [if_neg (by simp [hopen])]
  by_cases htotal : f.total = 1
  · simp only [if_pos htotal]
    obtain ⟨h₁, h₂, h₃⟩ := deliver_eq a f.fragment
    exact ⟨h₁, h₂.trans hopen, h₃⟩
  · simp only [if_neg htotal]
    rcases collect a.pending f.packetID f.total f.index f.fragment now with ⟨pending, _ | payload⟩
    · exact ⟨rfl, hopen, by simp⟩
    · obtain ⟨h₁, h₂, h₃⟩ := deliver_eq { a with pending := pending } payload
      exact ⟨h₁, h₂.trans hopen, h₃⟩

theorem deliverFragment_closed {a : Receiver} (hclosed : a.closed = true) (now : ℤ) (f : Frame Addr) :
    a.deliverFragment now f = (a, none) := by
  rw [deliverFragment, if_pos hclosed]

theorem deliverFragment_recvQueue (a : Receiver) (now : ℤ) (f : Frame Addr) :
    (a.deliverFragment now f).1.recvQueue = a.recvQueue ++ (a.deliverFragment now f).2.toList := by
  unfold deliverFragment
  split_ifs
  · exact (append_nil _).symm
  · exact deliver_recvQueue a f.fragment
  · rcases collect a.pending f.packetID f.total f.index f.fragment now with ⟨pending, _ | payload⟩
    · exact (append_nil _).symm
    · exact deliver_recvQueue { a with pending := pending } payload

theorem Trace.step_frame (t : Trace) (now : ℤ) (f : Frame Addr) :
    t.step (.frame now f) = some ⟨(t.receiver.deliverFragment now f).1,
      t.queued ++ ((t.receiver.deliverFragment now f).2.map (f.packetID, ·)).toList⟩ := rfl

end Hydracore.Parasite.Datagram
