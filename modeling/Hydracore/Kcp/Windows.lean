import Hydracore.Kcp.Workers
import Hydracore.Systems.Tasks
import Mathlib.Data.List.TakeWhile

namespace Hydracore.Kcp

open Formats Systems List AckSegment AckList

variable {accepted accepted' : List Bytes} {number : UInt32}

namespace SendingWindow

def keys (cache : List DataSegment) : List (UInt32 × Bytes) := cache.map fun seg => (seg.number, seg.payload)

theorem keys_hurry (number rto : UInt32) (cache : List DataSegment) : keys (hurry number rto cache) = keys cache := by
  induction cache with
  | nil => rfl
  | cons seg cache ih =>
    unfold hurry
    split_ifs
    · rfl
    · exact congrArg₂ cons rfl ih
    · exact congrArg₂ cons rfl ih

variable {current rto maxInFlightSize : UInt32} {stamp : DataSegment → DataSegment}

theorem keys_append (c d : List DataSegment) : keys (c ++ d) = keys c ++ keys d := map_append

theorem keys_cons (seg : DataSegment) (c : List DataSegment) : keys (seg :: c) = keys [seg] ++ keys c := rfl

theorem keys_visit (hstamp : ∀ seg, keys [stamp seg] = keys [seg]) (cache : List DataSegment) (acc : Flushed) :
    keys (visit current rto maxInFlightSize stamp cache acc).cache = keys acc.cache ++ keys cache := by
  induction cache generalizing acc with
  | nil => simp [visit, keys]
  | cons seg cache ih =>
    have hsend : keys (acc.send seg (stamp (timed current rto seg))).cache = keys acc.cache ++ keys [seg] := by
      rw [Flushed.send, keys_append, hstamp]
      rfl
    simp only [visit]
    split_ifs
    · rw [ih, keys_append, keys_cons seg cache, append_assoc]
    · rw [ih, hsend, keys_cons seg cache, append_assoc]
    · rw [keys_append, hsend, keys_cons seg cache, append_assoc]

theorem out_visit (hstamp : ∀ seg, keys [stamp seg] = keys [seg]) {cache : List DataSegment} {acc : Flushed}
    {known : List (UInt32 × Bytes)} (hcache : keys cache ⊆ known) (hacc : keys acc.out ⊆ known) :
    keys (visit current rto maxInFlightSize stamp cache acc).out ⊆ known := by
  induction cache generalizing acc with
  | nil => exact hacc
  | cons seg cache ih =>
    rw [keys_cons, append_subset] at hcache
    have hout : keys (acc.send seg (stamp (timed current rto seg))).out ⊆ known := by
      rw [Flushed.send, keys_append, hstamp]
      exact append_subset.mpr ⟨hacc, hcache.1⟩
    simp only [visit]
    split_ifs
    · exact ih hcache.2 hacc
    · exact ih hcache.2 hout
    · exact hout

theorem removeFrom_eq {cache rest : List DataSegment} (h : removeFrom number cache = some rest) :
    ∃ before seg after, cache = before ++ seg :: after ∧ rest = before ++ after ∧ seg.number = number := by
  induction cache generalizing rest with
  | nil => cases h
  | cons seg cache ih =>
    unfold removeFrom at h
    split_ifs at h with hlt heq
    · exact ⟨[], seg, cache, rfl, (Option.some.inj h).symm, heq⟩
    · obtain ⟨rest', hrest', rfl⟩ := Option.map_eq_some_iff.mp h
      obtain ⟨before, other, after, rfl, rfl, hnumber⟩ := ih hrest'
      exact ⟨seg :: before, other, after, rfl, rfl, hnumber⟩

end SendingWindow

variable {b : Bytes} {seg : AckSegment} {current rto : UInt32}

namespace SendingWorker

open SendingWindow

def keys (w : SendingWorker) : List (UInt32 × Bytes) := SendingWindow.keys w.window.cache

variable {w w' w'' : SendingWorker} {done done' : UInt32 → Prop}

structure Trims (done : UInt32 → Prop) (w w' : SendingWorker) : Prop where
  nextNumber : w'.nextNumber = w.nextNumber
  subset : w'.keys ⊆ w.keys
  dropped : ∀ key ∈ w.keys, key ∈ w'.keys ∨ done key.1

theorem trims_of_keys (hnext : w'.nextNumber = w.nextNumber) (hkeys : w'.keys = w.keys) : Trims done w w' :=
  ⟨hnext, fun _ hkey => hkeys ▸ hkey, fun _ hkey => .inl (hkeys ▸ hkey)⟩

theorem Trims.trans (h : Trims done w w') (h' : Trims done w' w'') : Trims done w w'' := by
  refine ⟨h'.nextNumber.trans h.nextNumber, fun key hkey => h.subset (h'.subset hkey), fun key hkey => ?_⟩
  rcases h.dropped key hkey with hmem | hdone
  · exact h'.dropped key hmem
  · exact .inr hdone

theorem trims_findFirstUnacknowledged : Trims done w w.findFirstUnacknowledged := trims_of_keys rfl rfl

theorem trims_clear {una : UInt32} (h : ∀ number, number < una → done number) :
    Trims done w { w with window := w.window.clear una } := by
  refine ⟨rfl, ?_, ?_⟩
  · exact map_subset _ (dropWhile_subset _)
  · intro key hkey
    obtain ⟨seg, hseg, rfl⟩ := mem_map.mp hkey
    rw [← takeWhile_append_dropWhile (p := fun seg : DataSegment => decide (seg.number < una))
      (l := w.window.cache)] at hseg
    rcases mem_append.mp hseg with htake | hdrop
    · have hlt := mem_takeWhile_imp htake
      exact .inr (h _ (of_decide_eq_true hlt))
    · exact .inl (mem_map_of_mem hdrop)

theorem trims_processReceivingNext {nextNumber : UInt32} (h : ∀ number, number < nextNumber → done number) :
    Trims done w (w.processReceivingNext nextNumber) :=
  (trims_clear h).trans trims_findFirstUnacknowledged

theorem trims_remove {window : SendingWindow} (hremove : w.window.remove number = some window)
    (h : done number) : Trims done w { w with window := window } := by
  obtain ⟨rest, hrest, rfl⟩ := Option.map_eq_some_iff.mp hremove
  obtain ⟨before, seg, after, hcache, rfl, hnumber⟩ := removeFrom_eq hrest
  refine ⟨rfl, fun key hkey => ?_, fun key hkey => ?_⟩
  · simp only [keys, SendingWindow.keys, hcache, map_append, map_cons, mem_append, mem_cons] at hkey ⊢
    exact hkey.imp_right .inr
  · simp only [keys, SendingWindow.keys, hcache, map_append, map_cons, mem_append, mem_cons] at hkey ⊢
    rcases hkey with hbefore | rfl | hafter
    · exact .inl (.inl hbefore)
    · exact .inr (hnumber ▸ h)
    · exact .inl (.inr hafter)

theorem trims_processAck (h : done number) : Trims done w (w.processAck number).1 := by
  unfold processAck
  split_ifs
  · exact trims_of_keys rfl rfl
  · split
    · exact trims_of_keys rfl rfl
    · next window hremove => exact (trims_remove hremove h).trans trims_findFirstUnacknowledged

theorem trims_processAcks {numbers : List UInt32} (h : ∀ number ∈ numbers, done number) (maxack : UInt32)
    (maxackRemoved : Bool) : Trims done w (w.processAcks numbers maxack maxackRemoved).1 := by
  induction numbers generalizing w maxack maxackRemoved with
  | nil => exact trims_of_keys rfl rfl
  | cons number numbers ih =>
    have hfirst : Trims done w (w.processAck number).1 := trims_processAck (h number mem_cons_self)
    have hrest := fun n hn => h n (mem_cons_of_mem number hn)
    unfold processAcks
    simp only
    split_ifs
    all_goals exact hfirst.trans (ih hrest _ _)

theorem trims_raiseRemote {receivingWindow : UInt32} : Trims done w (w.raiseRemote receivingWindow) := by
  unfold raiseRemote
  split_ifs
  all_goals exact trims_of_keys rfl rfl

theorem trims_processSegment
    (hnext : ∀ number, number < seg.receivingNext → done number) (hlist : ∀ number ∈ seg.numberList, done number) :
    Trims done w (w.processSegment current seg rto).1 := by
  have hreceived : Trims done w ((w.raiseRemote seg.receivingWindow).processReceivingNext seg.receivingNext) :=
    trims_raiseRemote.trans (trims_processReceivingNext hnext)
  have hacked := hreceived.trans (trims_processAcks hlist 0 false)
  unfold processSegment
  simp only
  split_ifs
  · exact trims_of_keys rfl rfl
  · exact hreceived
  · exact hacked.trans (trims_of_keys rfl (keys_hurry _ _ _))
  · exact hacked.trans (trims_of_keys rfl (keys_hurry _ _ _))
  · exact hacked

theorem trims_onPacketLoss {config : Config} {rto lossRate : UInt32} :
    Trims done w (w.onPacketLoss config rto lossRate) := by
  unfold onPacketLoss
  by_cases hquiet : config.congestion = false ∨ rto = 0
  · rw [if_pos hquiet]
    exact trims_of_keys rfl rfl
  · rw [if_neg hquiet]
    exact trims_of_keys rfl rfl

variable {config : Config} {conv : UInt16} {option : UInt8} {current rto : UInt32}

theorem keys_stamp (w : SendingWorker) (conv : UInt16) (option : UInt8) (seg : DataSegment) :
    SendingWindow.keys [w.stamp conv option seg] = SendingWindow.keys [seg] := rfl

theorem trims_flush : Trims done w (w.flush config conv option current rto).worker := by
  unfold flush
  split_ifs
  · exact trims_of_keys rfl rfl
  · exact trims_of_keys rfl rfl
  · have hkeys : SendingWindow.keys (w.window.flush current rto (w.cwnd config) (w.stamp conv option)).cache = w.keys :=
      keys_visit (keys_stamp w conv option) w.window.cache _
    simp only
    split_ifs
    · refine Trims.trans ?_ trims_onPacketLoss
      exact trims_of_keys rfl hkeys
    · exact trims_of_keys rfl hkeys

theorem out_flush : SendingWindow.keys (w.flush config conv option current rto).out ⊆ w.keys := by
  have hout : SendingWindow.keys (w.window.flush current rto (w.cwnd config) (w.stamp conv option)).out ⊆ w.keys := by
    apply out_visit (keys_stamp w conv option)
    · exact Subset.refl _
    · exact nil_subset _
  unfold flush
  split_ifs
  · exact nil_subset _
  · exact nil_subset _
  · simp only
    split_ifs
    · exact hout
    · exact hout

structure Sound (w : SendingWorker) (accepted : List Bytes) (done : UInt32 → Prop) : Prop where
  numbered : w.nextNumber.toNat = accepted.length
  carries : ∀ key ∈ w.keys, accepted[key.1.toNat]? = some key.2
  dropped : ∀ number : UInt32, number.toNat < accepted.length → number ∈ w.keys.map Prod.fst ∨ done number

theorem Sound.mono (h : Sound w accepted done) (hdone : ∀ number, done number → done' number) :
    Sound w accepted done' :=
  ⟨h.numbered, h.carries, fun number hlt => (h.dropped number hlt).imp_right (hdone number)⟩

theorem Sound.trims (h : Sound w accepted done) (htrims : Trims done w w') : Sound w' accepted done := by
  refine ⟨htrims.nextNumber ▸ h.numbered, fun key hkey => h.carries key (htrims.subset hkey), fun number hlt => ?_⟩
  rcases h.dropped number hlt with hmem | hdone
  · obtain ⟨key, hkey, rfl⟩ := mem_map.mp hmem
    exact (htrims.dropped key hkey).imp_left mem_map_of_mem
  · exact .inr hdone

theorem Sound.push {windowSize : UInt32} (h : Sound w accepted done)
    (hroom : (accepted ++ [b]).length < 2 ^ 32) (hw : w.push windowSize b = some w') :
    Sound w' (accepted ++ [b]) done := by
  rw [length_append, length_singleton] at hroom
  unfold SendingWorker.push at hw
  split_ifs at hw
  cases hw
  have hkeys : ∀ key, key ∈ SendingWorker.keys { w with
      window := w.window.push w.nextNumber b, nextNumber := w.nextNumber + 1 } ↔
        key ∈ w.keys ∨ key = (w.nextNumber, b) := by
    intro key
    simp [SendingWorker.keys, SendingWindow.keys, SendingWindow.push, newDataSegment, or_comm]
  have hnumbered := h.numbered
  refine ⟨?_, fun key hkey => ?_, fun number hlt => ?_⟩
  · rw [UInt32.toNat_add, length_append, length_singleton, hnumbered]
    exact Nat.mod_eq_of_lt hroom
  · rcases (hkeys key).mp hkey with hold | rfl
    · have hcarries := h.carries key hold
      rw [getElem?_append_left (getElem?_lt hcarries)]
      exact hcarries
    · rw [hnumbered, getElem?_append_right le_rfl, Nat.sub_self]
      rfl
  · rw [length_append, length_singleton] at hlt
    by_cases hlast : number.toNat = accepted.length
    · refine .inl (mem_map.mpr ⟨(w.nextNumber, b), (hkeys _).mpr (.inr rfl), ?_⟩)
      exact UInt32.toNat_inj.mp (hnumbered.trans hlast.symm)
    · refine (h.dropped number (by omega)).imp_left fun hmem => ?_
      obtain ⟨key, hkey, rfl⟩ := mem_map.mp hmem
      exact mem_map_of_mem ((hkeys key).mpr (.inl hkey))

end SendingWorker

namespace AckList

variable {l : AckList} {current rto : UInt32}

def numbers (l : AckList) : List UInt32 := l.entries.map AckEntry.number

theorem numbers_clear_subset (l : AckList) (una : UInt32) : (l.clear una).numbers ⊆ l.numbers :=
  map_subset _ filter_sublist.subset

structure Flushing.Within (acc : Flushing) (known : List UInt32) : Prop where
  entries : ∀ entry ∈ acc.entries, entry.number ∈ known
  seg : acc.seg.numberList ⊆ known
  flushCandidates : acc.flushCandidates ⊆ known
  out : ∀ seg ∈ acc.out, seg.numberList ⊆ known
  room : acc.seg.numberList.length < ackNumberLimit
  full : ∀ seg ∈ acc.out, seg.numberList.length ≤ ackNumberLimit

theorem Flushing.Within.flushEntry {acc : Flushing} {known : List UInt32} {entry : AckEntry} (h : acc.Within known)
    (hentry : entry.number ∈ known) : (flushEntry current rto acc entry).Within known := by
  have hentries : ∀ e : AckEntry, e.number = entry.number → ∀ other ∈ acc.entries ++ [e], other.number ∈ known :=
    fun e he => forall_mem_concat h.entries (he ▸ hentry)
  have hput : (acc.seg.numberList ++ [entry.number]) ⊆ known :=
    append_subset.mpr ⟨h.seg, cons_subset.mpr ⟨hentry, nil_subset _⟩⟩
  have hlength : (acc.seg.numberList ++ [entry.number]).length = acc.seg.numberList.length + 1 := by simp
  have hroom := h.room
  simp only [AckList.flushEntry]
  split_ifs with hlater hcandidates hfull
  · refine ⟨hentries entry rfl, h.seg, ?_, h.out, h.room, h.full⟩
    exact append_subset.mpr ⟨h.flushCandidates, cons_subset.mpr ⟨hentry, nil_subset _⟩⟩
  · exact ⟨hentries entry rfl, h.seg, h.flushCandidates, h.out, h.room, h.full⟩
  · refine ⟨hentries _ rfl, nil_subset _, h.flushCandidates, forall_mem_concat h.out ?_, Nat.zero_lt_succ _,
      forall_mem_concat h.full ?_⟩
    · rw [numberList_putTimestamp]
      exact hput
    · rw [numberList_putTimestamp]
      simp only [putNumber, hlength]
      omega
  · simp only [isFull, numberList_putTimestamp, putNumber, hlength, decide_eq_true_eq] at hfull
    refine ⟨hentries _ rfl, ?_, h.flushCandidates, h.out, ?_, h.full⟩
    · rw [numberList_putTimestamp]
      exact hput
    · rw [numberList_putTimestamp]
      simp only [putNumber, hlength]
      omega

theorem Flushing.Within.foldl {acc : Flushing} {known : List UInt32} {entries : List AckEntry} (h : acc.Within known)
    (hentries : ∀ entry ∈ entries, entry.number ∈ known) :
    (entries.foldl (AckList.flushEntry current rto) acc).Within known := by
  induction entries generalizing acc with
  | nil => exact h
  | cons entry entries ih =>
    have hfirst : (AckList.flushEntry current rto acc entry).Within known :=
      h.flushEntry (hentries entry mem_cons_self)
    exact ih hfirst fun e he => hentries e (mem_cons_of_mem entry he)

theorem addCandidates_within {candidates known : List UInt32} (hcandidates : candidates ⊆ known)
    (hseg : seg.numberList ⊆ known) (hfull : seg.numberList.length ≤ ackNumberLimit) :
    (candidates.foldl addCandidate seg).numberList ⊆ known ∧
      (candidates.foldl addCandidate seg).numberList.length ≤ ackNumberLimit := by
  induction candidates generalizing seg with
  | nil => exact ⟨hseg, hfull⟩
  | cons number candidates ih =>
    obtain ⟨hnumber, hrest⟩ := cons_subset.mp hcandidates
    rw [foldl_cons]
    unfold addCandidate
    split_ifs with hisFull
    · exact ih hrest hseg hfull
    · apply ih hrest
      · exact append_subset.mpr ⟨hseg, cons_subset.mpr ⟨hnumber, nil_subset _⟩⟩
      · simp only [isFull, decide_eq_true_eq] at hisFull
        simp only [putNumber, length_append, length_singleton]
        omega

theorem flush_within (l : AckList) (current rto : UInt32) :
    (l.flush current rto).1.numbers ⊆ l.numbers ∧ ∀ seg ∈ (l.flush current rto).2,
      seg.numberList ⊆ l.numbers ∧ seg.numberList.length ≤ ackNumberLimit := by
  have hstart : Flushing.Within ⟨[], l.dirty, .new, [], []⟩ l.numbers :=
    ⟨nofun, nil_subset _, nil_subset _, nofun, Nat.zero_lt_succ _, nofun⟩
  have hloop : (l.entries.foldl (flushEntry current rto) ⟨[], l.dirty, .new, [], []⟩).Within l.numbers :=
    hstart.foldl fun entry hentry => mem_map_of_mem hentry
  have hentries : (l.entries.foldl (flushEntry current rto) ⟨[], l.dirty, .new, [], []⟩).entries.map AckEntry.number ⊆
      l.numbers := by
    intro number hnumber
    obtain ⟨entry, hentry, rfl⟩ := mem_map.mp hnumber
    exact hloop.entries entry hentry
  have hout := fun seg hseg => And.intro (hloop.out seg hseg) (hloop.full seg hseg)
  simp only [flush]
  split_ifs
  · refine ⟨hentries, forall_mem_concat hout ?_⟩
    exact addCandidates_within hloop.flushCandidates hloop.seg hloop.room.le
  · exact ⟨hentries, hout⟩

end AckList

namespace ReceivingWorker

variable {w w' : ReceivingWorker}

def Stored (w : ReceivingWorker) (number : UInt32) : Prop :=
  number.toNat < w.nextNumber.toNat ∨ ∃ seg ∈ w.window, seg.number = number

structure Grows (w w' : ReceivingWorker) : Prop where
  nextNumber : w.nextNumber.toNat ≤ w'.nextNumber.toNat
  stored : ∀ number, w.Stored number → w'.Stored number

theorem Grows.refl (w : ReceivingWorker) : Grows w w := ⟨Nat.le_refl _, fun _ => id⟩

theorem grows_of_window (hnext : w'.nextNumber = w.nextNumber) (hwindow : w.window ⊆ w'.window) : Grows w w' := by
  refine ⟨hnext ▸ Nat.le_refl _, fun number h => ?_⟩
  rcases h with hlt | ⟨seg, hseg, hnumber⟩
  · exact .inl (hnext ▸ hlt)
  · exact .inr ⟨seg, hwindow hseg, hnumber⟩

structure Sound (w : ReceivingWorker) (accepted : List Bytes) : Prop where
  nextNumber_le : w.nextNumber.toNat ≤ accepted.length
  carries : ∀ seg ∈ w.window, accepted[seg.number.toNat]? = some seg.payload
  acked : ∀ number ∈ w.acklist.numbers, w.Stored number

theorem getElem?_of_isPrefix {i : ℕ} (h : accepted <+: accepted') (hb : accepted[i]? = some b) :
    accepted'[i]? = some b := by
  obtain ⟨more, rfl⟩ := h
  rw [getElem?_append_left (getElem?_lt hb)]
  exact hb

theorem Sound.mono (h : Sound w accepted) (hinit : accepted <+: accepted') : Sound w accepted' :=
  ⟨h.nextNumber_le.trans hinit.length_le, fun seg hseg => getElem?_of_isPrefix hinit (h.carries seg hseg), h.acked⟩

theorem find_eq_some {seg : DataSegment} (h : w.find number = some seg) : seg ∈ w.window ∧ seg.number = number :=
  ⟨mem_of_find?_eq_some h, by simpa using find?_some h⟩

theorem Sound.processSendingNext (h : Sound w accepted) (number : UInt32) :
    Sound (w.processSendingNext number) accepted :=
  ⟨h.nextNumber_le, h.carries, fun n hn => h.acked n (numbers_clear_subset _ _ hn)⟩

variable {windowSize : UInt32}

theorem grows_processSegment {seg : DataSegment} : Grows w (w.processSegment windowSize seg) := by
  unfold processSegment
  split_ifs
  · exact .refl w
  · exact grows_of_window rfl (Subset.refl _)
  · exact grows_of_window rfl (subset_append_left _ _)

theorem Sound.processSegment {seg : DataSegment} (h : Sound w accepted)
    (hseg : accepted[seg.number.toNat]? = some seg.payload) : Sound (w.processSegment windowSize seg) accepted := by
  have hgrows : Grows w (w.processSegment windowSize seg) := grows_processSegment
  unfold ReceivingWorker.processSegment at hgrows ⊢
  -- the numbers to acknowledge are old ones and that of the segment
  have hacked (w' : ReceivingWorker) (hw : w'.acklist = (w.acklist.clear seg.sendingNext).add seg.number seg.timestamp)
      (hold : ∀ number, w.Stored number → w'.Stored number) (hnew : w'.Stored seg.number) :
      ∀ number ∈ w'.acklist.numbers, w'.Stored number := by
    intro number hnumber
    rw [hw, numbers, add, map_append, mem_append] at hnumber
    rcases hnumber with hclear | hlast
    · exact hold number (h.acked number (numbers_clear_subset _ _ hclear))
    · obtain rfl : number = seg.number := by simpa using hlast
      exact hnew
  split_ifs at hgrows ⊢ with hfar hhas
  · exact h
  · refine ⟨h.nextNumber_le, h.carries, hacked _ rfl hgrows.stored (.inr ?_)⟩
    obtain ⟨other, hother⟩ := Option.isSome_iff_exists.mp hhas
    exact ⟨other, find_eq_some hother⟩
  · refine ⟨h.nextNumber_le, fun other hother => ?_, hacked _ rfl hgrows.stored (.inr ?_)⟩
    · rcases mem_append.mp hother with hold | hnew
      · exact h.carries other hold
      · rw [mem_singleton.mp hnew]
        exact hseg
    · exact ⟨seg, mem_append_right _ mem_cons_self, rfl⟩

theorem Sound.flush (h : Sound w accepted) (windowSize : UInt32) (conv : UInt16) (option : UInt8)
    (current rto : UInt32) : Sound (w.flush windowSize conv option current rto).1 accepted :=
  ⟨h.nextNumber_le, h.carries, fun number hnumber => h.acked number ((flush_within _ _ _).1 hnumber)⟩

theorem flush_out {conv : UInt16} {option : UInt8}
    (h : Sound w accepted) (hseg : seg ∈ (w.flush windowSize conv option current rto).2) :
    seg.receivingNext = w.nextNumber ∧ (∀ number ∈ seg.numberList, w.Stored number) ∧
      seg.numberList.length ≤ ackNumberLimit := by
  obtain ⟨unstamped, hunstamped, rfl⟩ := mem_map.mp hseg
  obtain ⟨hsubset, hlength⟩ := (flush_within w.acklist current rto).2 unstamped hunstamped
  exact ⟨rfl, fun number hnumber => h.acked number (hsubset hnumber), hlength⟩

def advance (w : ReceivingWorker) : ReceivingWorker :=
  { w with window := w.window.eraseP fun seg => seg.number = w.nextNumber, nextNumber := w.nextNumber + 1 }

section

variable (hroom : accepted.length < 2 ^ 32) (hb : accepted[w.nextNumber.toNat]? = some b)
include hroom hb

theorem toNat_succ : (w.nextNumber + 1).toNat = w.nextNumber.toNat + 1 := by
  have hlt := getElem?_lt hb
  exact Nat.mod_eq_of_lt (by change w.nextNumber.toNat + 1 < 2 ^ 32; omega)

theorem grows_advance : Grows w w.advance := by
  have hsucc := toNat_succ hroom hb
  refine ⟨by simp only [advance, hsucc]; omega, fun number hstored => ?_⟩
  rcases hstored with hlt | ⟨seg, hseg, rfl⟩
  · refine .inl ?_
    simp only [advance, hsucc]
    omega
  · by_cases hnext : seg.number = w.nextNumber
    · refine .inl ?_
      simp only [advance, hsucc, hnext]
      omega
    · exact .inr ⟨seg, (mem_eraseP_of_neg (by simpa using hnext)).mpr hseg, rfl⟩

theorem Sound.advance (h : Sound w accepted) : Sound w.advance accepted := by
  have hlt := getElem?_lt hb
  refine ⟨?_, fun seg hseg => h.carries seg (mem_of_mem_eraseP hseg), fun number hnumber => ?_⟩
  · simp only [ReceivingWorker.advance, toNat_succ hroom hb]
    omega
  · exact (grows_advance hroom hb).stored number (h.acked number hnumber)

end

theorem Grows.trans {w'' : ReceivingWorker} (h : Grows w w') (h' : Grows w' w'') : Grows w w'' :=
  ⟨h.nextNumber.trans h'.nextNumber, fun number hstored => h'.stored number (h.stored number hstored)⟩

theorem drain_spec (fuel : ℕ) (h : Sound w accepted) (hroom : accepted.length < 2 ^ 32) (mb : List Bytes) :
    Sound (w.drain fuel mb).1 accepted ∧ Grows w (w.drain fuel mb).1 ∧ (w.drain fuel mb).1.leftOver = w.leftOver ∧
      ∃ taken, (w.drain fuel mb).2 = mb ++ taken ∧
        accepted.take (w.drain fuel mb).1.nextNumber.toNat = accepted.take w.nextNumber.toNat ++ taken := by
  induction fuel generalizing w mb with
  | zero => exact ⟨h, .refl w, rfl, [], (append_nil _).symm, (append_nil _).symm⟩
  | succ fuel ih =>
    unfold drain
    split
    · exact ⟨h, .refl w, rfl, [], (append_nil _).symm, (append_nil _).symm⟩
    · next seg hfind =>
      obtain ⟨hmem, hnumber⟩ := find_eq_some hfind
      have hb : accepted[w.nextNumber.toNat]? = some seg.payload := hnumber ▸ h.carries seg hmem
      obtain ⟨hsound, hgrows, hleft, taken, hmb, htake⟩ := ih (h.advance hroom hb) (mb ++ [seg.payload])
      refine ⟨hsound, (grows_advance hroom hb).trans hgrows, hleft, seg.payload :: taken, ?_, ?_⟩
      · exact hmb.trans (by rw [append_assoc, singleton_append])
      · refine htake.trans ?_
        rw [advance, toNat_succ hroom hb, take_add_one, hb]
        simp

end ReceivingWorker

end Hydracore.Kcp
