import Hydracore.Call.Datagrams
import Hydracore.Systems.Outcomes
import Hydracore.Systems.Runs
import Hydracore.Systems.Tasks

/-!
When a `Read` of an accepted UDP connection returns one datagram. The connection keeps
its datagrams in one byte buffer, so the answer depends on what the buffer holds when
the next datagram is delivered.
-/

namespace Hydracore.Call.Datagrams

open Formats Systems List Option CreatorUDPConn

def allowed (s : Relay) : Act → Bool
  | .write _ b => !b.isEmpty
  | .read _ n => s.written.all fun e => e.2.length ≤ n
  | _ => true

def spaced (s : Relay) : Act → Bool
  | .write pc b => 6 + pc.destStr.length + b.length < 4294967296
  | .advance i =>
    match s.tasks[i]? with
    | some (.delivering ref _) => s.conns[ref]?.all fun uc => uc.closed || uc.readBuf.isEmpty
    | _ => true
  | _ => true

variable {pc : PacketConn}

theorem PacketConn.frame_fits {b : Bytes} (h : 6 + pc.destStr.length + b.length < 4294967296) :
    (pc.frame b).Fits := by
  simp only [Frame.Fits, PacketConn.frame, udpPayload, length_cons, length_append]
  omega

section Facts

variable (j : Joiner) (written : List (UInt32 × Bytes))

def Genuine (f : Frame) : Prop :=
  f.Fits ∧ (f.msgType = msgUDP → ∃ pc ∈ j.conns, ∃ b, f = pc.frame b ∧ (pc.id, b) ∈ written ∧ b ≠ [])

structure ConnSound (uc : CreatorUDPConn) : Prop where
  owner : ∃ pc ∈ j.conns, pc.id = uc.id ∧ pc.destStr = uc.addr
  whole : ∀ b ∈ uc.delivered, (uc.id, b) ∈ written
  pending : uc.readBuf ≠ [] → uc.delivered = uc.reads ++ [uc.readBuf]
  emptied : uc.readBuf = [] → uc.closed = false → uc.delivered = uc.reads
  inOrder : uc.reads <+: uc.delivered

def TaskSound (conns : List CreatorUDPConn) : Task → Prop
  | .handling connID payload =>
    ∃ pc ∈ j.conns, ∃ b, connID = pc.id ∧ payload = udpPayload pc.destStr b ∧ (pc.id, b) ∈ written ∧ b ≠ []
  | .creating connID addr data =>
    ∃ pc ∈ j.conns, connID = pc.id ∧ addr = pc.destStr ∧ (pc.id, data) ∈ written ∧ data ≠ []
  | .delivering ref data => ∃ uc, conns[ref]? = some uc ∧ (uc.id, data) ∈ written ∧ data ≠ []
  | .removing ref | .discarding ref => ∃ uc, conns[ref]? = some uc ∧ uc.closed = true
  | .finished => True

end Facts

structure Sound (j : Joiner) (s : Relay) : Prop where
  wire : ∀ w ∈ s.wire, ∃ f, f.encode = w ∧ Genuine j s.written f
  callback : ∀ f ∈ s.callback, Genuine j s.written f
  table : ∀ id ref, s.udpClients.lookup id = some ref → ∃ uc, s.conns[ref]? = some uc ∧ uc.id = id
  conns : ∀ uc ∈ s.conns, ConnSound j s.written uc
  handlers : ∀ h ∈ s.handlers, ∃ uc, s.conns[h.1]? = some uc ∧ uc.addr = h.2
  tasks : ∀ t ∈ s.tasks, TaskSound j s.written s.conns t

variable {j : Joiner} {s : Relay} {f : CreatorUDPConn → CreatorUDPConn} {t : Task}

section Growing

variable {written written' : List (UInt32 × Bytes)}

theorem Genuine.mono {f : Frame} (h : Genuine j written f) (hsub : written ⊆ written') : Genuine j written' f := by
  refine ⟨h.1, fun htype => ?_⟩
  obtain ⟨pc, hpc, b, hf, hb, hne⟩ := h.2 htype
  exact ⟨pc, hpc, b, hf, hsub hb, hne⟩

theorem ConnSound.mono {uc : CreatorUDPConn} (h : ConnSound j written uc) (hsub : written ⊆ written') :
    ConnSound j written' uc :=
  ⟨h.owner, fun b hb => hsub (h.whole b hb), h.pending, h.emptied, h.inOrder⟩

def Kept (conns conns' : List CreatorUDPConn) : Prop :=
  ∀ (ref : ℕ) (uc : CreatorUDPConn), conns[ref]? = some uc →
    ∃ uc', conns'[ref]? = some uc' ∧ uc'.id = uc.id ∧ uc'.addr = uc.addr ∧ (uc.closed = true → uc'.closed = true)

section

variable (conns : List CreatorUDPConn)

theorem Kept.refl : Kept conns conns := fun _ uc h => ⟨uc, h, rfl, rfl, id⟩

theorem Kept.concat (new : CreatorUDPConn) : Kept conns (conns ++ [new]) :=
  fun _ uc h => ⟨uc, getElem?_append_of_some h, rfl, rfl, id⟩

theorem Kept.modify (ref : ℕ) (hid : ∀ uc, (f uc).id = uc.id) (haddr : ∀ uc, (f uc).addr = uc.addr)
    (hclosed : ∀ uc, uc.closed = true → (f uc).closed = true) : Kept conns (conns.modify ref f) := by
  intro ref' uc h
  refine ⟨if ref = ref' then f uc else uc, ?_, ?_, ?_, ?_⟩
  · rw [getElem?_modify, h]
    rfl
  · split_ifs
    · exact hid uc
    · rfl
  · split_ifs
    · exact haddr uc
    · rfl
  · intro hc
    split_ifs
    · exact hclosed uc hc
    · exact hc

end

theorem TaskSound.mono {conns conns' : List CreatorUDPConn} (h : TaskSound j written conns t)
    (hsub : written ⊆ written') (hkept : Kept conns conns') : TaskSound j written' conns' t := by
  cases t with
  | handling connID payload =>
    obtain ⟨pc, hpc, b, hid, hpayload, hb, hne⟩ := h
    exact ⟨pc, hpc, b, hid, hpayload, hsub hb, hne⟩
  | creating connID addr data =>
    obtain ⟨pc, hpc, hid, haddr, hb, hne⟩ := h
    exact ⟨pc, hpc, hid, haddr, hsub hb, hne⟩
  | delivering ref data =>
    obtain ⟨uc, huc, hb, hne⟩ := h
    obtain ⟨uc', huc', hid, -⟩ := hkept ref uc huc
    exact ⟨uc', huc', hid ▸ hsub hb, hne⟩
  | removing ref | discarding ref =>
    obtain ⟨uc, huc, hclosed⟩ := h
    obtain ⟨uc', huc', -, -, hkeep⟩ := hkept ref uc huc
    exact ⟨uc', huc', hkeep hclosed⟩
  | finished => trivial

end Growing

variable {data : Bytes}

namespace ConnSound

variable {written : List (UInt32 × Bytes)} {uc : CreatorUDPConn}

theorem new (hpc : pc ∈ j.conns) : ConnSound j written (newCreatorUDPConn pc.id pc.destStr) where
  owner := ⟨pc, hpc, rfl, rfl⟩
  whole := by simp [newCreatorUDPConn]
  pending := fun h => absurd rfl h
  emptied := fun _ _ => rfl
  inOrder := prefix_rfl

section

variable (h : ConnSound j written uc)
include h

theorem deliver (hdata : (uc.id, data) ∈ written) (hne : data ≠ [])
    (hspaced : uc.closed = true ∨ uc.readBuf = []) : ConnSound j written (uc.deliver data) := by
  unfold CreatorUDPConn.deliver
  split_ifs with hclosed
  · exact h
  · have hbuf : uc.readBuf = [] := hspaced.resolve_left hclosed
    have hreads : uc.delivered = uc.reads := h.emptied hbuf (Bool.eq_false_iff.mpr hclosed)
    refine ⟨h.owner, ?_, ?_, ?_, ?_⟩
    · exact forall_mem_concat h.whole hdata
    · intro _
      simp [hbuf, hreads]
    · intro hempty _
      simp [hbuf, hne] at hempty
    · rw [hreads]
      exact prefix_append _ _

theorem read {n : ℕ} (hbuf : uc.readBuf ≠ []) (hn : ∀ e ∈ written, e.2.length ≤ n) :
    ConnSound j written (uc.read n) := by
  have hdelivered : uc.delivered = uc.reads ++ [uc.readBuf] := h.pending hbuf
  have hlen : uc.readBuf.length ≤ n := hn _ (h.whole _ (by simp [hdelivered]))
  have hread : uc.read n = { uc with readBuf := [], reads := uc.delivered } := by
    rw [CreatorUDPConn.read, drop_eq_nil_of_le hlen, take_of_length_le hlen, hdelivered]
  rw [hread]
  exact ⟨h.owner, h.whole, fun hne => absurd rfl hne, fun _ _ => rfl, prefix_rfl⟩

theorem shut : ConnSound j written uc.shut :=
  ⟨h.owner, h.whole, h.pending, fun _ hopen => Bool.noConfusion hopen, h.inOrder⟩

theorem discardBuffered (hclosed : uc.closed = true) : ConnSound j written uc.discardBuffered :=
  ⟨h.owner, h.whole, fun hne => absurd rfl hne, fun _ hopen => Bool.noConfusion (hclosed.symm.trans hopen), h.inOrder⟩

end

end ConnSound

theorem handleCreatorMessage_written (s : Relay) (f : Frame) : (handleCreatorMessage s f).written = s.written := by
  unfold handleCreatorMessage
  split_ifs
  · rfl
  · split <;> rfl
  · rfl

namespace Sound

theorem start : Sound j start where
  wire := forall_mem_nil _
  callback := forall_mem_nil _
  table := fun id ref h => by simp [Datagrams.start] at h
  conns := forall_mem_nil _
  handlers := forall_mem_nil _
  tasks := forall_mem_nil _

section

variable (h : Sound j s)
include h

theorem modify (ref : ℕ) (hid : ∀ uc, (f uc).id = uc.id)
    (haddr : ∀ uc, (f uc).addr = uc.addr) (hclosed : ∀ uc, uc.closed = true → (f uc).closed = true)
    (hf : ∀ uc, s.conns[ref]? = some uc → ConnSound j s.written (f uc)) : Sound j (s.modify ref f) := by
  have hkept := Kept.modify s.conns ref hid haddr hclosed
  refine ⟨h.wire, h.callback, ?_, ?_, ?_, ?_⟩
  · intro id ref' hlookup
    obtain ⟨uc, huc, rfl⟩ := h.table id ref' hlookup
    obtain ⟨uc', huc', hid', -⟩ := hkept ref' uc huc
    exact ⟨uc', huc', hid'⟩
  · intro uc' huc'
    obtain ⟨ref', hget⟩ := mem_iff_getElem?.mp huc'
    simp only [Relay.modify, getElem?_modify] at hget
    obtain ⟨uc, huc, rfl⟩ := map_eq_some_iff.mp hget
    split_ifs with heq
    · exact hf uc (heq ▸ huc)
    · exact h.conns uc (mem_of_getElem? huc)
  · intro e he
    obtain ⟨uc, huc, haddr'⟩ := h.handlers e he
    obtain ⟨uc', huc', -, hsame, -⟩ := hkept e.1 uc huc
    exact ⟨uc', huc', hsame.trans haddr'⟩
  · exact fun t ht => (h.tasks t ht).mono (Subset.refl _) hkept

theorem stage (i : ℕ) (ht : TaskSound j s.written s.conns t) : Sound j (s.stage i t) := by
  exact ⟨h.wire, h.callback, h.table, h.conns, h.handlers, forall_mem_set h.tasks ht⟩

theorem spawn (ht : TaskSound j s.written s.conns t) : Sound j (s.spawn t) :=
  ⟨h.wire, h.callback, h.table, h.conns, h.handlers, forall_mem_concat h.tasks ht⟩

theorem erase (id : UInt32) : Sound j { s with udpClients := s.udpClients.erase id } :=
  ⟨h.wire, h.callback, fun id' ref hlookup => h.table id' ref (Dict.lookup_erase_some hlookup).2, h.conns,
    h.handlers, h.tasks⟩

theorem shut (ref : ℕ) : Sound j (s.modify ref shut) :=
  h.modify ref (fun _ => rfl) (fun _ => rfl) (fun _ _ => rfl) fun uc huc => (h.conns uc (mem_of_getElem? huc)).shut

theorem handleCreatorMessage {f : Frame} (hf : Genuine j s.written f) : Sound j (handleCreatorMessage s f) := by
  unfold Datagrams.handleCreatorMessage
  split_ifs with hudp hclose
  · obtain ⟨pc, hpc, b, rfl, hb, hne⟩ := hf.2 hudp
    exact h.spawn ⟨pc, hpc, b, rfl, rfl, hb, hne⟩
  · split
    · exact h
    · exact (h.shut _).erase _
  · exact h

theorem frame_callback {l : List Frame} (hl : ∀ f ∈ l, Genuine j s.written f) : Sound j { s with callback := l } :=
  ⟨h.wire, hl, h.table, h.conns, h.handlers, h.tasks⟩

theorem exists_frames {frames : List ℕ} {chunk : List Bytes}
    (hchunk : Forall₂ (fun i w => s.wire[i]? = some w) frames chunk) :
    ∃ fs : List Frame, chunk.flatten = fs.flatMap Frame.encode ∧ ∀ f ∈ fs, Genuine j s.written f := by
  induction hchunk with
  | nil => exact ⟨[], rfl, forall_mem_nil _⟩
  | @cons i w frames chunk hw _ ih =>
    obtain ⟨f, hf, hgenuine⟩ := h.wire w (mem_of_getElem? hw)
    obtain ⟨fs, hfs, hall⟩ := ih
    refine ⟨f :: fs, ?_, forall_mem_cons.mpr ⟨hgenuine, hall⟩⟩
    rw [flatten_cons, flatMap_cons, hf, hfs]

theorem arrive {frames : List ℕ} {chunk : List Bytes} (hchunk : frames.mapM (s.wire[·]?) = some chunk) :
    Sound j { s with callback := decodeFrames chunk.flatten } := by
  obtain ⟨fs, hfs, hall⟩ := h.exists_frames (mapM_eq_some_iff.mp hchunk)
  apply h.frame_callback
  rw [hfs, decodeFrames_flatMap fun f hf => (hall f hf).1]
  exact hall

theorem write (hpc : pc ∈ j.conns) {b : Bytes} (hne : b ≠ [])
    (hfits : 6 + pc.destStr.length + b.length < 4294967296) :
    Sound j { s with written := s.written ++ [(pc.id, b)], wire := s.wire ++ [(pc.frame b).encode] } := by
  have hsub : s.written ⊆ s.written ++ [(pc.id, b)] := subset_append_left _ _
  refine ⟨?_, ?_, h.table, ?_, h.handlers, ?_⟩
  · apply forall_mem_concat
    · intro w hw
      obtain ⟨f, hf, hgenuine⟩ := h.wire w hw
      exact ⟨f, hf, hgenuine.mono hsub⟩
    · exact ⟨_, rfl, PacketConn.frame_fits hfits, fun _ => ⟨pc, hpc, b, rfl, by simp, hne⟩⟩
  · exact fun f hf => (h.callback f hf).mono hsub
  · exact fun uc huc => (h.conns uc huc).mono hsub
  · exact fun t ht => (h.tasks t ht).mono hsub (.refl _)

theorem closePacket (id : UInt32) (closedIDs : List UInt32) :
    Sound j { s with closedIDs := closedIDs, wire := s.wire ++ [Frame.encode ⟨id, msgClose, []⟩] } := by
  refine ⟨forall_mem_concat h.wire ⟨_, rfl, ?_, ?_⟩, h.callback, h.table, h.conns, h.handlers, h.tasks⟩
  · simp [Frame.Fits]
  · intro htype
    cases htype

theorem create (hpc : pc ∈ j.conns) {i : ℕ} (hdata : (pc.id, data) ∈ s.written) (hne : data ≠ []) :
    Sound j { s.stage i (.delivering s.conns.length data) with
      udpClients := s.udpClients.insert pc.id s.conns.length
      conns := s.conns ++ [newCreatorUDPConn pc.id pc.destStr]
      handlers := s.handlers ++ [(s.conns.length, pc.destStr)] } := by
  have hkept := Kept.concat s.conns (newCreatorUDPConn pc.id pc.destStr)
  have hnew : (s.conns ++ [newCreatorUDPConn pc.id pc.destStr])[s.conns.length]? =
      some (newCreatorUDPConn pc.id pc.destStr) := by
    rw [getElem?_append_right le_rfl, Nat.sub_self, getElem?_cons_zero]
  refine ⟨h.wire, h.callback, ?_, forall_mem_concat h.conns (.new hpc), ?_, ?_⟩
  · intro id ref hlookup
    rcases Dict.lookup_insert_some hlookup with ⟨rfl, rfl⟩ | ⟨-, hold⟩
    · exact ⟨_, hnew, rfl⟩
    · obtain ⟨uc, huc, hid⟩ := h.table id ref hold
      exact ⟨uc, getElem?_append_of_some huc, hid⟩
  · apply forall_mem_concat
    · intro e he
      obtain ⟨uc, huc, haddr⟩ := h.handlers e he
      exact ⟨uc, getElem?_append_of_some huc, haddr⟩
    · exact ⟨_, hnew, rfl⟩
  · exact forall_mem_set (fun t ht => (h.tasks t ht).mono (Subset.refl _) hkept) ⟨_, hnew, hdata, hne⟩

theorem stage_delivering {id : UInt32} {ref : ℕ} (hlookup : s.udpClients.lookup id = some ref)
    (hdata : (id, data) ∈ s.written) (hne : data ≠ []) (i : ℕ) :
    Sound j (s.stage i (.delivering ref data)) := by
  obtain ⟨uc, huc, rfl⟩ := h.table id ref hlookup
  exact h.stage i ⟨uc, huc, hdata, hne⟩

theorem advanceTask {i : ℕ} {s' : Relay} (hi : s.tasks[i]? = some t)
    (hspaced : spaced s (.advance i) = true) (hstep : advanceTask s i t = some s') : Sound j s' := by
  have ht := h.tasks t (mem_of_getElem? hi)
  simp only [spaced, hi] at hspaced
  cases t with
  | handling connID payload =>
    obtain ⟨pc, hpc, b, rfl, rfl, hb, hne⟩ := ht
    simp only [advanceTask] at hstep
    split at hstep
    · cases hstep
      exact h.stage i trivial
    · next addr data hparse =>
      obtain ⟨rfl, rfl⟩ := Prod.mk.inj (parseUDP_udpPayload (j.short pc hpc) hparse)
      split at hstep
      · next ref hlookup =>
        cases hstep
        exact h.stage_delivering hlookup hb hne i
      · cases hstep
        exact h.stage i ⟨pc, hpc, rfl, rfl, hb, hne⟩
  | creating connID addr data =>
    obtain ⟨pc, hpc, rfl, rfl, hb, hne⟩ := ht
    simp only [advanceTask] at hstep
    split at hstep
    · next ref hlookup =>
      cases hstep
      exact h.stage_delivering hlookup hb hne i
    · cases hstep
      exact h.create hpc hb hne
  | delivering ref data =>
    obtain ⟨uc, huc, hdata, hne⟩ := ht
    cases hstep
    refine (h.modify ref ?_ ?_ ?_ ?_).stage i trivial
    · intro uc'
      unfold deliver
      split_ifs <;> rfl
    · intro uc'
      unfold deliver
      split_ifs <;> rfl
    · intro uc' hclosed
      rw [deliver, if_pos hclosed]
      exact hclosed
    · intro uc' huc'
      cases huc.symm.trans huc'
      simp only [huc, all_some, Bool.or_eq_true, List.isEmpty_iff] at hspaced
      exact (h.conns uc (mem_of_getElem? huc)).deliver hdata hne hspaced
  | removing ref =>
    obtain ⟨uc, huc, rfl⟩ := map_eq_some_iff.mp hstep
    exact (h.stage i (t := .discarding ref) ht).erase uc.id
  | discarding ref =>
    obtain ⟨uc, huc, hclosed⟩ := ht
    cases hstep
    refine (h.modify (f := discardBuffered) ref (fun _ => rfl) (fun _ => rfl) (fun _ => id) ?_).stage i trivial
    intro uc' huc'
    cases huc.symm.trans huc'
    exact (h.conns uc (mem_of_getElem? huc)).discardBuffered hclosed
  | finished => cases hstep

theorem step {a : Act} {s' : Relay} (hallowed : allowed s a = true) (hspaced : spaced s a = true)
    (hstep : step j s a = some s') : Sound j s' := by
  cases a with simp only [Datagrams.step] at hstep
  | write pc b =>
    split_ifs at hstep with hpc
    · cases hstep
      exact h
    · cases hstep
      apply h.write hpc
      · simpa [allowed] using hallowed
      · simpa [spaced] using hspaced
  | closePacket pc =>
    split_ifs at hstep
    · cases hstep
      exact h
    · cases hstep
      exact h.closePacket pc.id _
  | arrive frames =>
    split_ifs at hstep
    obtain ⟨chunk, hchunk, rfl⟩ := map_eq_some_iff.mp hstep
    exact h.arrive hchunk
  | dispatch =>
    split at hstep
    · cases hstep
    · next f rest hcallback =>
      cases hstep
      have hall := h.callback
      rw [hcallback] at hall
      apply (h.handleCreatorMessage (hall f mem_cons_self)).frame_callback
      rw [handleCreatorMessage_written]
      exact (forall_mem_cons.mp hall).2
  | advance i =>
    obtain ⟨t, hi, hadvance⟩ := bind_eq_some_iff.mp hstep
    exact h.advanceTask hi hspaced hadvance
  | read ref n =>
    obtain ⟨uc, huc, hread⟩ := bind_eq_some_iff.mp hstep
    split_ifs at hread with hempty
    · cases hread
      exact h
    · cases hread
      refine h.modify ref (fun _ => rfl) (fun _ => rfl) (fun _ => id) ?_
      intro uc' huc'
      cases huc.symm.trans huc'
      apply (h.conns uc (mem_of_getElem? huc)).read
      · simpa using hempty
      · simpa [allowed] using hallowed
  | close ref =>
    obtain ⟨uc, huc, rfl⟩ := map_eq_some_iff.mp hstep
    split_ifs with hclosed
    · exact h.spawn ⟨uc, huc, hclosed⟩
    · refine (h.shut ref).spawn ⟨uc.shut, ?_, rfl⟩
      simp [Relay.modify, huc]

end

theorem of_run {acts : List Act} (hrun : Run (Datagrams.step j) (fun s a => allowed s a && spaced s a)
    Datagrams.start acts s) : Sound j s := by
  refine hrun.invariant (fun {t a v} ht hmet hstep => ?_) .start
  obtain ⟨hallowed, hspaced⟩ := (Bool.and_eq_true _ _).mp hmet
  exact ht.step hallowed hspaced hstep

end Sound

/-- The reads of a connection return the datagrams it was given, one by one; these were written on the
packet connection whose destination its handler got. -/
structure KeepsBoundaries (j : Joiner) (s : Relay) : Prop where
  reads : ∀ uc ∈ s.conns, uc.reads <+: uc.delivered
  written : ∀ uc ∈ s.conns, ∀ b ∈ uc.delivered, (uc.id, b) ∈ s.written
  destinations : ∀ h ∈ s.handlers, ∃ uc, s.conns[h.1]? = some uc ∧ ∃ pc ∈ j.conns, pc.id = uc.id ∧ pc.destStr = h.2

theorem keeps_boundaries (j : Joiner) (acts : List Act) (s : Relay)
    (hrun : Run (step j) (fun s a => allowed s a && spaced s a) start acts s) : KeepsBoundaries j s := by
  have hsound := Sound.of_run hrun
  refine ⟨fun uc huc => (hsound.conns uc huc).inOrder, fun uc huc => (hsound.conns uc huc).whole, fun h hh => ?_⟩
  obtain ⟨uc, huc, haddr⟩ := hsound.handlers h hh
  obtain ⟨pc, hpc, hid, hdest⟩ := (hsound.conns uc (List.mem_of_getElem? huc)).owner
  exact ⟨uc, huc, pc, hpc, hid, hdest.trans haddr⟩

def twoConns : Joiner where
  conns := [⟨1, [97]⟩, ⟨2, [98, 99]⟩]
  distinct := by decide
  short := by decide
  nonzero := by decide

def readBetween : List Act :=
  [Act.write ⟨1, [97]⟩ [1, 2], .write ⟨1, [97]⟩ [3], .write ⟨2, [98, 99]⟩ [4], .arrive [0, 2], .dispatch, .dispatch,
    .arrive [1], .dispatch, .advance 0, .advance 2, .advance 0, .advance 1, .advance 1, .advance 2, .advance 0,
    .read 0 9, .advance 2, .advance 1, .read 0 9, .read 1 9]

theorem keeps_boundaries_between :
    ∃ s, (Run (step twoConns) (fun s a => allowed s a && spaced s a) start readBetween s ∧
      s.conns.map reads = [[[1, 2], [3]], [[4]]]) ∧ KeepsBoundaries twoConns s := by
  refine (Run.exists_of_decideWhile ?_).imp
    fun s ⟨hrun, hs⟩ => ⟨⟨hrun, hs⟩, keeps_boundaries twoConns readBetween s hrun⟩
  decide +kernel

def readAfterTwo : List Act :=
  [Act.write ⟨1, [97]⟩ [1, 2], .write ⟨1, [97]⟩ [3], .arrive [0], .dispatch, .arrive [1], .dispatch,
    .advance 0, .advance 0, .advance 0, .advance 1, .advance 1, .read 0 9]

theorem datagrams_joined :
    ∃ s, Run (step twoConns) (allowed · ·) start readAfterTwo s ∧ s.written = [(1, [1, 2]), (1, [3])] ∧
      s.conns.map reads = [[[1, 2, 3]]] ∧ ¬ KeepsBoundaries twoConns s := by
  refine (Run.exists_of_decideWhile (P := fun s => s.written = [(1, [1, 2]), (1, [3])] ∧
    s.conns.map reads = [[[1, 2, 3]]] ∧ ¬ ∀ uc ∈ s.conns, uc.reads <+: uc.delivered) ?_).imp
    fun s ⟨hrun, hwritten, hreads, hjoined⟩ => ⟨hrun, hwritten, hreads, fun hkeeps => hjoined hkeeps.reads⟩
  decide +kernel

end Hydracore.Call.Datagrams
