import Hydracore.Parasite.Datagram.Gathering

namespace Hydracore.Parasite.Datagram

open Formats Systems List Option Event Trace

variable {Addr : Type} {S : AddrSerializer Addr}

def Event.frameOf (own : UInt64) : Event Addr → Option (Frame Addr)
  | .frame _ f => if f.packetID = own then some f else none
  | _ => none

def calm (own : UInt64) (t : Trace) : Event Addr → Bool
  | .frame now f =>
    if f.packetID = own then t.receiver.recvQueue.length < datagramReceiveQueue
    else f.total = 1 || others own f.packetID now t.receiver.pending + 1 ≤ 15
  | .read => true
  | .close => false

def Event.timely (own : UInt64) : Event Addr → Event Addr → Bool
  | .frame now _, .frame now' f' => f'.packetID ≠ own || now < now' + datagramReassemblyTimeout
  | _, _ => true

def queuedFor (own : UInt64) (t : Trace) : List Bytes :=
  (t.queued.filter fun entry => entry.1 = own).map Prod.snd

theorem queuedFor_step (own : UInt64) {t v : Trace} {now : ℤ} {f : Frame Addr} (hs : t.step (.frame now f) = some v) :
    queuedFor own v = queuedFor own t ++
      if f.packetID = own then (t.receiver.deliverFragment now f).2.toList else [] := by
  rw [step_frame, some.injEq] at hs
  subst v
  simp only [queuedFor, filter_append, map_append]
  congr 1
  cases (t.receiver.deliverFragment now f).2 with
  | none => simp
  | some p => by_cases hid : f.packetID = own <;> simp [hid]

section

variable {d : Written} {window : Set ℤ} {t v : Trace} {now : ℤ} {f : Frame Addr}

structure Received (d : Written) (window : Set ℤ) (earlier : List Bytes) (done : List ℕ) (t : Trace) : Prop where
  isOpen : t.receiver.closed = false
  progress : (done.length < d.pieces.length ∧ Gathering d window done t.receiver.pending ∧
      queuedFor d.packetID t = earlier) ∨
    (done.length = d.pieces.length ∧ queuedFor d.packetID t = earlier ++ [d.payload])

variable {earlier : List Bytes} {done : List ℕ}

theorem Received.other (h : Received d window earlier done t) (hid : f.packetID ≠ d.packetID) (hnow : now ∈ window)
    (hcalm : calm d.packetID t (.frame now f) = true) (hs : t.step (.frame now f) = some v) :
    Received d window earlier done v := by
  have hqueued : queuedFor d.packetID v = queuedFor d.packetID t := by
    rw [queuedFor_step _ hs, if_neg hid, append_nil]
  obtain ⟨hpending, hopen, -⟩ := deliverFragment_open h.isOpen now f
  rw [step_frame, some.injEq] at hs
  refine ⟨by rw [← hs]; exact hopen, ?_⟩
  rw [hqueued]
  rcases h.progress with ⟨hless, hgather, heq⟩ | hdone
  · refine .inl ⟨hless, ?_, heq⟩
    have hroom : f.total = 1 ∨ others d.packetID f.packetID now t.receiver.pending < 15 := by
      simp only [calm, if_neg hid, Bool.or_eq_true, decide_eq_true_eq] at hcalm
      exact hcalm.imp_right Nat.lt_of_succ_le
    rw [← hs]
    rw [hpending]
    exact hgather.other hid hnow hroom
  · exact .inr hdone

theorem Received.arrival (h : Received d window earlier done t) (hf : f.Of d) (hnew : f.index.toNat ∉ done)
    (hmore : done.length < d.pieces.length) (hdue : ∀ t ∈ window, t < now + datagramReassemblyTimeout)
    (hcalm : calm d.packetID t (.frame now f) = true) (hs : t.step (.frame now f) = some v) :
    Received d window earlier (done ++ [f.index.toNat]) v := by
  obtain ⟨hpending, hopen, hout⟩ := deliverFragment_open h.isOpen now f
  have hroom : t.receiver.recvQueue.length < datagramReceiveQueue := by
    simpa [calm, hf.1] using hcalm
  rw [if_pos hroom] at hout
  have hqueued := queuedFor_step d.packetID hs
  rw [if_pos hf.1, hout] at hqueued
  rw [step_frame, some.injEq] at hs
  refine ⟨by rw [← hs]; exact hopen, ?_⟩
  rcases h.progress with ⟨-, hgather, heq⟩ | ⟨hfull, -⟩
  · obtain ⟨hlast, hnext⟩ := hgather.arrival hf hnew hdue
    rw [heq] at hqueued
    rw [length_append, length_singleton]
    rcases Nat.lt_or_eq_of_le (Nat.succ_le_of_lt hmore) with hless | hfull
    · obtain ⟨hnone, hgather'⟩ := hnext hless
      refine .inl ⟨hless, ?_, by rw [hqueued, hnone]; simp⟩
      rw [← hs]
      rwa [hpending]
    · exact .inr ⟨hfull, by rw [hqueued, hlast hfull]; rfl⟩
  · omega

theorem received_run {r : Trace} {events : List (Event Addr)}
    (hrun : Run step (calm d.packetID · ·) r events t) (hopen : r.receiver.closed = false)
    (hpieces : 0 < d.pieces.length) (hnone : collectorsOf d.packetID r.receiver.pending = [])
    (hof : ∀ f ∈ events.filterMap (frameOf d.packetID), f.Of d)
    (hnodup : ((events.filterMap (frameOf d.packetID)).map fun f => f.index.toNat).Nodup)
    (hlen : (events.filterMap (frameOf d.packetID)).length ≤ d.pieces.length)
    (hwindow : ∀ now f, .frame now f ∈ events → now ∈ window)
    (hdue : ∀ now f, .frame now f ∈ events → f.packetID = d.packetID → ∀ t ∈ window, t < now + datagramReassemblyTimeout) :
    Received d window (queuedFor d.packetID r)
      ((events.filterMap (frameOf d.packetID)).map fun f => f.index.toNat) t := by
  induction hrun with
  | nil => exact ⟨hopen, .inl ⟨hpieces, .absent hnone, rfl⟩⟩
  | @snoc t v events e before met taken ih =>
    have hmem {now : ℤ} {f : Frame Addr} (h : .frame now f ∈ events) : .frame now f ∈ events ++ [e] :=
      mem_append_left _ h
    rw [filterMap_append, map_append] at hnodup
    rw [filterMap_append, length_append] at hlen
    have hprev := ih (fun f hf => hof f (by rw [filterMap_append]; exact mem_append_left _ hf))
      hnodup.of_append_left (by omega) (fun now f h => hwindow now f (hmem h)) (fun now f h => hdue now f (hmem h))
    rw [filterMap_append, map_append]
    cases e with
    | frame now f =>
      by_cases hid : f.packetID = d.packetID
      · have hframe : frameOf d.packetID (.frame now f) = some f := if_pos hid
        simp only [filterMap_cons, hframe, filterMap_nil, map_cons, map_nil, length_cons,
          length_nil] at hnodup hlen ⊢
        refine hprev.arrival (hof f ?_) ?_ ?_ (hdue now f (by simp) hid) met taken
        · rw [filterMap_append]
          exact mem_append_right _ (by simp [hframe])
        · exact fun h => disjoint_of_nodup_append hnodup h (mem_singleton.mpr rfl)
        · rw [length_map]
          omega
      · have hframe : frameOf d.packetID (.frame now f) = none := if_neg hid
        simp only [filterMap_cons, hframe, filterMap_nil, map_nil, append_nil]
        exact hprev.other hid (hwindow now f (by simp)) met taken
    | read =>
      cases taken
      simp only [filterMap_cons, frameOf, filterMap_nil, map_nil, append_nil]
      exact ⟨hprev.isOpen, hprev.progress⟩
    | close => cases met

end

theorem map_some_filterMap {α β : Type} {g : α → Option β} {l : List α} (h : ∀ x ∈ l, ∃ y, g x = some y) :
    (l.filterMap g).map some = l.map g := by
  induction l with
  | nil => rfl
  | cons x l ih =>
    obtain ⟨y, hy⟩ := h x (mem_cons_self ..)
    rw [filterMap_cons_some hy, map_cons, map_cons, hy, ih fun x hx => h x (mem_cons_of_mem _ hx)]

variable {a : Sender S} {packets : List Bytes} {p : Bytes}

section

variable (h : (a.write p).2 = .ok packets)
include h

theorem map_parse_packets :
    packets.map (parseDatagramFrame S) = (a.frames p).map some ∧ ∀ i f, (a.frames p)[i]? = some f →
      f.associationID = a.id ∧ f.destination = a.destination ∧ f.packetID = a.nextPacket + 1 ∧
      f.total.toNat = packets.length ∧ f.index.toNat = i ∧ f.fragment = chunk a.fragmentBudget p i := by
  have hframes : a.frames p = packets.filterMap (parseDatagramFrame S) := by rw [Sender.frames, h]
  obtain ⟨dest, hdest, -, -, hcount, hpackets⟩ := Sender.write_ok h
  have hlen : packets.length = chunkCount a.fragmentBudget p.length := by rw [hpackets]; simp
  have hparse {i : ℕ} {raw : Bytes} (hraw : packets[i]? = some raw) : ∃ f, parseDatagramFrame S raw = some f ∧
      f.associationID = a.id ∧ f.destination = a.destination ∧ f.packetID = a.nextPacket + 1 ∧
      f.total.toNat = packets.length ∧ f.index.toNat = i ∧ f.fragment = chunk a.fragmentBudget p i := by
    have hi := getElem?_lt hraw
    rw [hlen] at hi ⊢
    rw [hpackets, getElem?_map, getElem?_range hi, map_some] at hraw
    cases hraw
    exact a.parse_packet hdest hi hcount
  have hmap : packets.map (parseDatagramFrame S) = (a.frames p).map some := by
    rw [hframes]
    refine (map_some_filterMap fun raw hraw => ?_).symm
    obtain ⟨i, hi⟩ := mem_iff_getElem?.mp hraw
    obtain ⟨f, hf, -⟩ := hparse hi
    exact ⟨f, hf⟩
  refine ⟨hmap, fun i f hf => ?_⟩
  have hat := congrArg (fun l => l[i]?) hmap
  simp only [getElem?_map, hf, map_some] at hat
  obtain ⟨raw, hraw, hsome⟩ := map_eq_some_iff.mp hat
  obtain ⟨f', hf', hfields⟩ := hparse hraw
  exact some.inj (hsome.symm.trans hf') ▸ hfields

theorem index_frames : (a.frames p).map (fun f => f.index.toNat) = range packets.length := by
  obtain ⟨hmap, hfields⟩ := map_parse_packets h
  have hlen : (a.frames p).length = packets.length := by simpa using (congrArg length hmap).symm
  apply ext_getElem?
  intro i
  rcases Nat.lt_or_ge i packets.length with hi | hi
  · obtain ⟨f, hf⟩ : ∃ f, (a.frames p)[i]? = some f := ⟨_, getElem?_eq_getElem (hlen ▸ hi)⟩
    rw [getElem?_map, hf, getElem?_range hi, map_some, (hfields i f hf).2.2.2.2.1]
  · rw [getElem?_eq_none (by simpa [hlen] using hi), getElem?_eq_none (by simpa using hi)]

theorem write_length : packets.length = (a.pieces p).length ∧ 0 < packets.length := by
  obtain ⟨dest, hdest, hbudget, -, -, rfl⟩ := Sender.write_ok h
  rw [Sender.pieces, length_map, length_map, length_range]
  exact ⟨rfl, chunkCount_pos hbudget _⟩

theorem queuedFor_delivered {r t : Trace} {events : List (Event Addr)} (hopen : r.receiver.closed = false)
    (hnone : collectorsOf (a.nextPacket + 1) r.receiver.pending = [])
    (hperm : (events.filterMap (frameOf (a.nextPacket + 1))).Perm (a.frames p))
    (htimely : ∀ e ∈ events, ∀ e' ∈ events, e.timely (a.nextPacket + 1) e' = true)
    (hrun : Run step (calm (a.nextPacket + 1) · ·) r events t) :
    queuedFor (a.nextPacket + 1) t = queuedFor (a.nextPacket + 1) r ++ [p] := by
  obtain ⟨hlen, hpos⟩ := write_length h
  have hindex := index_frames h
  have hne : 0 < (a.frames p).length := by
    have := congrArg length hindex
    simp only [length_map, length_range] at this
    omega
  obtain ⟨d, hid, hpieces, hpayload, -⟩ := written_of_frame (getElem_mem hne)
  rw [← hpieces] at hlen
  rw [← hid] at hnone hperm htimely hrun ⊢
  have hidx := hperm.map fun f => f.index.toNat
  rw [hindex] at hidx
  have hcount := hidx.length_eq
  rw [length_map, length_range] at hcount
  have hof : ∀ f ∈ events.filterMap (frameOf d.packetID), f.Of d := by
    intro f hf
    obtain ⟨d', hid', hpieces', -, hof⟩ := written_of_frame (hperm.subset hf)
    exact Written.ext (hid'.trans hid.symm) (hpieces'.trans hpieces.symm) ▸ hof
  have hwindow : ∀ now f, .frame now f ∈ events → now ∈ {now' | ∃ f', .frame now' f' ∈ events} :=
    fun now f hf => ⟨f, hf⟩
  have hdue : ∀ now f, .frame now f ∈ events → f.packetID = d.packetID →
      ∀ now' ∈ {now' | ∃ f', .frame now' f' ∈ events}, now' < now + datagramReassemblyTimeout := by
    rintro now f hf hown now' ⟨f', hf'⟩
    simpa [timely, hown] using htimely _ hf' _ hf
  have hreceived := received_run hrun hopen (by omega) hnone hof (hidx.nodup_iff.mpr nodup_range) (by omega)
    hwindow hdue
  rcases hreceived.progress with ⟨hless, -⟩ | ⟨-, hqueued⟩
  · rw [length_map] at hless
    omega
  · rw [hqueued, hpayload]

end

theorem write_roundTrip (a : Sender S) (p : Bytes) (hconn : a.connected = true) (hopen : a.closed = false)
    (hid : a.id.toNat < 2 ^ 28) (hpacket : (a.nextPacket + 1).toNat < 2 ^ 35)
    (hdest : (S.writeAddrPort a.destination).isSome) (hp : p.length ≤ 65535) :
    ∃ packets, (a.write p).2 = .ok packets ∧ 1 ≤ packets.length ∧ packets.length ≤ 255 ∧
      (∀ raw ∈ packets, raw.length ≤ maxDatagramFramePayload) ∧
      packets.map (parseDatagramFrame S) = (a.frames p).map some ∧ (∀ i f, (a.frames p)[i]? = some f →
        f.associationID = a.id ∧ f.destination = a.destination ∧ f.packetID = a.nextPacket + 1 ∧
        f.total.toNat = packets.length ∧ f.index.toNat = i ∧ f.fragment = chunk a.fragmentBudget p i) ∧
      ∀ (r t : Trace) (events : List (Event Addr)), r.receiver.closed = false →
        collectorsOf (a.nextPacket + 1) r.receiver.pending = [] →
        (events.filterMap (frameOf (a.nextPacket + 1))).Perm (a.frames p) →
        (∀ e ∈ events, ∀ e' ∈ events, e.timely (a.nextPacket + 1) e' = true) →
        Run step (calm (a.nextPacket + 1) · ·) r events t →
        queuedFor (a.nextPacket + 1) t = queuedFor (a.nextPacket + 1) r ++ [p] := by
  obtain ⟨dest, hd⟩ := Option.isSome_iff_exists.mp hdest
  have hwrite := a.write_eq hd hconn hopen hid hpacket hp
  obtain ⟨hmap, hfields⟩ := map_parse_packets hwrite
  refine ⟨_, hwrite, (write_length hwrite).2, ?_, ?_, hmap, hfields, ?_⟩
  · rw [List.length_map, List.length_range]
    exact a.fragment_count_le hd hp
  · intro raw hraw
    obtain ⟨i, -, rfl⟩ := List.mem_map.mp hraw
    exact a.packet_length_le hd hid hpacket _ p i
  · intro r t events hropen hnone hperm htimely hrun
    exact queuedFor_delivered hwrite hropen hnone hperm htimely hrun

def reorderedArrivals : List (Event IPv4AddrPort) :=
  let first := (ipv4Sender 0).frames (List.replicate 1300 7)
  let second := (ipv4Sender 1).frames (List.replicate 1400 8)
  (first.drop 1 ++ second.take 1 ++ first.take 1).mapIdx fun i f => .frame i f

theorem write_roundTrip_reordered : ∃ packets t, ((ipv4Sender 0).write (List.replicate 1300 7)).2 = .ok packets ∧
    packets.length ≤ 255 ∧
    execWhile step (calm 1) ⟨.new, []⟩ reorderedArrivals = some t ∧ queuedFor 1 t = [List.replicate 1300 7] := by
  obtain ⟨packets, hwrite, -, hle, -, -, -, hdeliver⟩ :=
    write_roundTrip (ipv4Sender 0) (List.replicate 1300 7) rfl rfl (by decide) (by decide) rfl (by decide +kernel)
  have hsome : (execWhile step (calm 1) ⟨.new, []⟩ reorderedArrivals).isSome := by decide +kernel
  obtain ⟨t, ht⟩ := Option.isSome_iff_exists.mp hsome
  refine ⟨packets, t, hwrite, hle, ht, ?_⟩
  exact hdeliver ⟨.new, []⟩ t reorderedArrivals rfl rfl (by decide +kernel) (by decide +kernel) (.of_execWhile ht)

end Hydracore.Parasite.Datagram
