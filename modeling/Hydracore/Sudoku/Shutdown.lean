import Hydracore.Sudoku.Multiplex
import Hydracore.Systems.Runs
import Hydracore.Systems.Tasks

/-!
Which streams the closing of a session reaches. `closeWithError` closes the streams
it finds in the table, so a stream is reached unless it is registered later or has
left the table before.
-/

namespace Hydracore.Sudoku.Multiplex

open Systems List
open Option (map_eq_some_iff bind_eq_some_iff all_some getD_some)

structure Stream.Later (c c' : Stream) : Prop where
  closed : c.closed = true → c'.closed = true
  localReadClosed : c.localReadClosed = true → c'.localReadClosed = true
  remoteWriteClosed : c.remoteWriteClosed = true → c'.remoteWriteClosed = true

theorem later_refl (c : Stream) : Stream.Later c c := ⟨id, id, id⟩

theorem later_closeNoSend (err : CloseErr) (c : Stream) : Stream.Later c (c.closeNoSend err) := by
  unfold Stream.closeNoSend
  split_ifs
  · exact later_refl c
  · exact ⟨fun _ => rfl, id, id⟩

theorem closed_closeNoSend (err : CloseErr) (c : Stream) : (c.closeNoSend err).closed = true := by
  unfold Stream.closeNoSend
  split_ifs with h
  · exact h
  · rfl

theorem later_close (c : Stream) :
    Stream.Later c (if c.closed then (c, false) else (c.close, true) : Stream × Bool).1 := by
  split_ifs
  · exact later_refl c
  · exact ⟨fun _ => rfl, fun _ => rfl, id⟩

theorem later_closeRemoteWrite (c : Stream) : Stream.Later c c.closeRemoteWrite.1 := by
  unfold Stream.closeRemoteWrite
  split_ifs
  · exact later_refl c
  · exact ⟨id, id, fun _ => rfl⟩

theorem later_closeWrite (c : Stream) : Stream.Later c c.closeWrite.1 := by
  unfold Stream.closeWrite
  split_ifs
  · exact later_refl c
  · exact ⟨id, id, id⟩

theorem later_closeRead (c : Stream) : Stream.Later c c.closeRead.1 := by
  unfold Stream.closeRead
  split_ifs
  · exact later_refl c
  · exact ⟨id, fun _ => rfl, id⟩

theorem later_enqueue (payload : List UInt8) (c : Stream) : Stream.Later c (c.enqueue payload) := by
  unfold Stream.enqueue
  dsimp only
  split_ifs
  · exact later_refl c
  · exact ⟨id, id, id⟩
  · exact ⟨id, id, id⟩

theorem later_fill (c : Stream) : Stream.Later c c.fill := by
  unfold Stream.fill
  split_ifs
  · exact ⟨id, id, id⟩
  · exact later_refl c

theorem later_read (n : ℕ) (c : Stream) : Stream.Later c (c.read n).2 := by
  have hfill := later_fill c
  simp only [Stream.read]
  split
  · exact hfill
  · exact ⟨hfill.closed, hfill.localReadClosed, hfill.remoteWriteClosed⟩

structure Marking (marked : Stream → Bool) : Prop where
  of_closed : ∀ c, c.closed = true → marked c = true
  later : ∀ {c c'}, Stream.Later c c' → marked c = true → marked c' = true

theorem marking_closed : Marking Stream.closed := ⟨fun _ h => h, fun hlater h => hlater.closed h⟩

theorem marking_shut : Marking Stream.shut where
  of_closed c h := by simp [Stream.shut, h]
  later := by
    intro c c' hlater h
    simp only [Stream.shut, Bool.or_eq_true] at h ⊢
    exact h.imp (Or.imp hlater.closed hlater.localReadClosed) hlater.remoteWriteClosed

section Orderly

variable (marked : Stream → Bool)

def removable (s : Session) (id : UInt32) : Bool :=
  (s.streams.lookup id).all fun ref => s.heap[ref]?.all marked

def orderly (s : Session) : Act → Bool
  | .advance k =>
    match s.opens[k]? with
    | some (.numbered _ id) => s.closer = .idle && removable marked s id
    | some (.removing id) => removable marked s id
    | _ => true
  | .handle =>
    match s.reader with
    | .admitting id _ => s.closer = .idle && removable marked s id
    | .removing id => removable marked s id
    | _ => true
  | .remove i => s.removals[i]?.all (removable marked s)
  | _ => true

end Orderly

def Closer.streams : Closer → List ℕ
  | .swapped streams _ => streams
  | _ => []

structure Reached (marked : Stream → Bool) (s : Session) : Prop where
  kept : ∀ ref c, s.heap[ref]? = some c →
    marked c = true ∨ (∃ id, s.streams.lookup id = some ref) ∨ ref ∈ s.closer.streams
  emptied : s.closer ≠ .idle → s.streams = ∅

def Opening.ref : Opening → Option ℕ
  | .registered _ _ ref | .sending _ ref | .broken _ ref _ | .failed _ ref _ | .returned ref => some ref
  | .checked _ | .numbered _ _ | .removing _ | .refused => none

def Session.handedOut (s : Session) : List ℕ :=
  s.returned ++ (s.acceptCh.getD []).map Prod.fst ++ s.offers.map Prod.fst

def Session.refs (s : Session) : List ℕ := s.handedOut ++ s.opens.filterMap Opening.ref

structure Sound (marked : Stream → Bool) (s : Session) : Prop extends Reached marked s where
  known : ∀ ref ∈ s.refs, ref < s.heap.length

variable {s : Session} {id : UInt32} {k ref : ℕ} {c : Stream} {o : Opening}

theorem marked_of_removable {marked : Stream → Bool} (hfree : removable marked s id = true)
    (hid : s.streams.lookup id = some ref) (hget : s.heap[ref]? = some c) : marked c = true := by
  rw [removable, hid, all_some, hget, all_some] at hfree
  exact hfree

theorem mem_refs :
    ref ∈ s.refs ↔ ref ∈ s.returned ∨ ref ∈ (s.acceptCh.getD []).map Prod.fst ∨ ref ∈ s.offers.map Prod.fst ∨
      ref ∈ s.opens.filterMap Opening.ref := by
  simp only [Session.refs, Session.handedOut, mem_append, or_assoc]

theorem mem_refs_stage (h : ref ∈ (s.stage k o).refs) : ref ∈ s.refs ∨ o.ref = some ref := by
  rw [mem_refs] at h ⊢
  rcases h with h | h | h | h
  · exact .inl (.inl h)
  · exact .inl (.inr (.inl h))
  · exact .inl (.inr (.inr (.inl h)))
  · obtain ⟨o', ho', href⟩ := mem_filterMap.mp h
    rcases mem_or_eq_of_mem_set ho' with hmem | rfl
    · exact .inl (.inr (.inr (.inr (mem_filterMap.mpr ⟨o', hmem, href⟩))))
    · exact .inr href

theorem mem_refs_opens (hk : s.opens[k]? = some o) (href : o.ref = some ref) : ref ∈ s.refs :=
  mem_refs.mpr (.inr (.inr (.inr (mem_filterMap.mpr ⟨o, mem_of_getElem? hk, href⟩))))

namespace Sound

variable {marked : Stream → Bool} {s t : Session}

theorem start (server : Bool) : Sound marked (start server) where
  kept := fun ref c hget => by simp [Multiplex.start] at hget
  emptied := fun _ => rfl
  known := by cases server <;> simp [Multiplex.start, Session.refs, Session.handedOut]

variable (h : Sound marked s)

include h

theorem frame (hstreams : t.streams = s.streams) (hcloser : t.closer = s.closer)
    (hheap : t.heap = s.heap) (hrefs : t.refs ⊆ s.refs) : Sound marked t := by
  refine ⟨⟨?_, ?_⟩, fun ref href => hheap ▸ h.known ref (hrefs href)⟩
  · rw [hheap, hstreams, hcloser]
    exact h.kept
  · rw [hstreams, hcloser]
    exact h.emptied

theorem modify (hmark : Marking marked) (ref : ℕ) {f : Stream → Stream}
    (hf : ∀ c, Stream.Later c (f c)) : Sound marked (s.modify ref f) := by
  refine ⟨⟨fun ref' c' hget => ?_, h.emptied⟩, fun ref' href => ?_⟩
  · simp only [Session.modify, getElem?_modify] at hget
    obtain ⟨c, hc, rfl⟩ := map_eq_some_iff.mp hget
    refine (h.kept ref' c hc).imp_left fun hc => ?_
    split_ifs
    · exact hmark.later (hf c) hc
    · exact hc
  · rw [Session.modify, length_modify]
    exact h.known ref' href

theorem kept_of_removable (hfree : removable marked s id = true) (hget : s.heap[ref]? = some c) :
    marked c = true ∨ (∃ id' ≠ id, s.streams.lookup id' = some ref) ∨ ref ∈ s.closer.streams := by
  rcases h.kept ref c hget with hmarked | ⟨id', hid'⟩ | hcloser
  · exact .inl hmarked
  · by_cases heq : id' = id
    · subst heq
      exact .inl (marked_of_removable hfree hid' hget)
    · exact .inr (.inl ⟨id', heq, hid'⟩)
  · exact .inr (.inr hcloser)

theorem removeStream (hfree : removable marked s id = true) : Sound marked (s.removeStream id) := by
  refine ⟨⟨fun ref c hget => ?_, fun hcloser => ?_⟩, h.known⟩
  · refine (h.kept_of_removable hfree hget).imp_right (Or.imp_left fun ⟨id', hne, hid'⟩ => ⟨id', ?_⟩)
    rw [Session.removeStream, AList.lookup_erase_ne hne, hid']
  · simp only [Session.removeStream, h.emptied hcloser]
    rfl

theorem register (hidle : s.closer = .idle) (hfree : removable marked s id = true) :
    Sound marked (s.register id) := by
  refine ⟨⟨fun ref c hget => ?_, fun hcloser => absurd hidle hcloser⟩, fun ref href => ?_⟩
  · simp only [Session.register] at hget ⊢
    rcases getElem?_concat_cases hget with hold | ⟨rfl, rfl⟩
    · -- the entry that is overwritten is removable
      refine (h.kept_of_removable hfree hold).imp_right (Or.imp_left fun ⟨id', hne, hid'⟩ => ⟨id', ?_⟩)
      rw [AList.lookup_insert_ne hne, hid']
    · exact .inr (.inl ⟨id, AList.lookup_insert _⟩)
  · have hlt : ref < s.heap.length := h.known ref href
    rw [Session.register, length_append]
    omega

theorem shutdown {order : List ℕ} (hidle : s.closer = .idle)
    (horder : order.Perm (s.streams.entries.map Sigma.snd)) (err : CloseErr) (closeErr : Option CloseErr) :
    Sound marked { s with streams := ∅, closer := .swapped order err, closeErr := closeErr } := by
  refine ⟨⟨fun ref c hget => ?_, fun _ => rfl⟩, h.known⟩
  rcases h.kept ref c hget with hmarked | ⟨id, hid⟩ | hcloser
  · exact .inl hmarked
  · right; right
    apply horder.mem_iff.mpr
    exact mem_map.mpr ⟨⟨id, ref⟩, AList.mem_lookup_iff.mp hid, rfl⟩
  · rw [hidle] at hcloser
    cases hcloser

theorem closeNext (hmark : Marking marked) {rest : List ℕ} {err : CloseErr}
    (hcloser : s.closer = .swapped (ref :: rest) err) :
    Sound marked { s.modify ref (Stream.closeNoSend err) with closer := .swapped rest err } := by
  have hmodify := h.modify hmark ref (later_closeNoSend err)
  refine ⟨⟨fun ref' c' hget => ?_, fun _ => h.emptied (by simp [hcloser])⟩, hmodify.known⟩
  have hget' : (s.modify ref (Stream.closeNoSend err)).heap[ref']? = some c' := hget
  rcases hmodify.kept ref' c' hget' with hmarked | htable | hlisted
  · exact .inl hmarked
  · exact .inr (.inl htable)
  · have hlisted : ref' ∈ s.closer.streams := hlisted
    rw [hcloser] at hlisted
    rcases mem_cons.mp hlisted with rfl | hrest
    · left
      simp only [Session.modify, getElem?_modify] at hget
      obtain ⟨c, -, rfl⟩ := map_eq_some_iff.mp hget
      exact hmark.of_closed _ (closed_closeNoSend err c)
    · exact .inr (.inr hrest)

theorem of_closer (hstreams : s.closer.streams = []) (hidle : s.closer ≠ .idle) {closer : Closer} :
    Sound marked { s with closer := closer } := by
  refine ⟨⟨fun ref c hget => ?_, fun _ => h.emptied hidle⟩, h.known⟩
  rcases h.kept ref c hget with hmarked | htable | hlisted
  · exact .inl hmarked
  · exact .inr (.inl htable)
  · rw [hstreams] at hlisted
    cases hlisted

theorem stage (ho : ∀ ref, o.ref = some ref → ref < s.heap.length) : Sound marked (s.stage k o) := by
  refine ⟨⟨h.kept, h.emptied⟩, fun ref href => ?_⟩
  rcases mem_refs_stage href with hold | hnew
  · exact h.known ref hold
  · exact ho ref hnew

theorem stage_same {o o' : Opening} (hk : s.opens[k]? = some o)
    (hheap : ∀ ref, o'.ref = some ref → o.ref = some ref) : Sound marked (s.stage k o') :=
  h.stage fun ref href => h.known ref (mem_refs_opens hk (hheap ref href))

section

variable (hmark : Marking marked)
include hmark

theorem advanceOpen (hk : s.opens[k]? = some o) (hmet : orderly marked s (.advance k) = true)
    (hstep : advanceOpen s k o = some t) : Sound marked t := by
  simp only [orderly, hk] at hmet
  cases o with
  | checked payload =>
    cases hstep
    exact (h.stage_same hk (by intro ref href; cases href)).frame rfl rfl rfl (.refl _)
  | numbered payload id =>
    cases hstep
    simp only [Bool.and_eq_true, decide_eq_true_eq] at hmet
    apply (h.register hmet.1 hmet.2).stage
    intro ref href
    cases href
    rw [Session.register, length_append]
    exact Nat.lt_succ_self _
  | registered payload id ref =>
    simp only [advanceOpen] at hstep
    split_ifs at hstep
    all_goals
      cases hstep
      exact h.stage_same hk fun _ href => href
  | broken id ref err =>
    simp only [advanceOpen] at hstep
    split_ifs at hstep
    cases hstep
    exact h.stage_same hk fun _ href => href
  | failed id ref err =>
    cases hstep
    apply (h.modify hmark ref (later_closeNoSend err)).stage
    intro ref' href
    cases href
  | removing id =>
    cases hstep
    apply (h.removeStream hmet).stage
    intro ref href
    cases href
  | sending id ref | returned ref | refused => cases hstep

theorem handleFrame (hmet : orderly marked s .handle = true)
    (hstep : handleFrame s s.reader = some t) : Sound marked t := by
  have hread (r : Reader) : Sound marked { s with reader := r } := h.frame rfl rfl rfl (.refl _)
  simp only [orderly] at hmet
  generalize s.reader = reader at hstep hmet
  cases reader with
  | idle | ended => cases hstep
  | looking id payload | answering =>
    cases hstep
    exact hread _
  | admitting id payload =>
    cases hstep
    simp only [Bool.and_eq_true, decide_eq_true_eq] at hmet
    have hregister := h.register hmet.1 hmet.2
    refine ⟨⟨hregister.kept, hregister.emptied⟩, fun ref href => ?_⟩
    rw [mem_refs, map_append, mem_append] at href
    rcases href with href | href | (href | href) | href
    · exact hregister.known ref (mem_refs.mpr (.inl href))
    · exact hregister.known ref (mem_refs.mpr (.inr (.inl href)))
    · exact hregister.known ref (mem_refs.mpr (.inr (.inr (.inl href))))
    · obtain rfl := mem_singleton.mp href
      simp [Session.register]
    · exact hregister.known ref (mem_refs.mpr (.inr (.inr (.inr href))))
  | finding id payload | closing id | resetting id payload =>
    simp only [Multiplex.handleFrame] at hstep
    split at hstep
    all_goals
      cases hstep
      exact hread _
  | enqueueing ref payload =>
    simp only [Multiplex.handleFrame] at hstep
    split_ifs at hstep
    cases hstep
    exact (h.modify hmark ref (later_enqueue payload)).frame rfl rfl rfl (.refl _)
  | closingWrite id ref =>
    cases hstep
    exact (h.modify hmark ref later_closeRemoteWrite).frame rfl rfl rfl (.refl _)
  | resettingStream id ref payload =>
    cases hstep
    exact (h.modify hmark ref (later_closeNoSend _)).frame rfl rfl rfl (.refl _)
  | removing id =>
    cases hstep
    exact (h.removeStream hmet).frame rfl rfl rfl (.refl _)
  | failing =>
    simp only [Multiplex.handleFrame] at hstep
    split_ifs at hstep
    cases hstep
    exact hread _

theorem operate {f : Stream → Stream × Bool}
    (hf : ∀ c, Stream.Later c (f c).1) (hstep : operate s ref f = some t) : Sound marked t := by
  simp only [Multiplex.operate] at hstep
  split_ifs at hstep
  obtain ⟨c, -, rfl⟩ := map_eq_some_iff.mp hstep
  exact (h.modify hmark ref hf).frame rfl rfl rfl (.refl _)

theorem step {a : Act} (hmet : orderly marked s a = true)
    (hstep : step s a = some t) : Sound marked t := by
  cases a with simp only [Multiplex.step] at hstep
  | openStream payload =>
    split_ifs at hstep
    · cases hstep
      exact h
    · cases hstep
      refine h.frame rfl rfl rfl fun ref href => ?_
      rw [mem_refs, filterMap_append] at href
      exact mem_refs.mpr (by simpa [Opening.ref] using href)
  | advance k =>
    obtain ⟨o, hk, hadvance⟩ := bind_eq_some_iff.mp hstep
    exact h.advanceOpen hmark hk hmet hadvance
  | write k err =>
    split at hstep
    case h_2 => cases hstep
    case h_1 id ref hk =>
      have href : ref < s.heap.length := h.known ref (mem_refs_opens hk rfl)
      split at hstep
      · cases hstep
        exact h.stage_same hk fun _ href => href
      · split_ifs at hstep
        cases hstep
        have hstage : Sound marked (s.stage k (.returned ref)) := h.stage_same hk fun _ href => href
        refine ⟨⟨hstage.kept, hstage.emptied⟩, fun ref' href' => ?_⟩
        rw [mem_refs, mem_append, mem_singleton] at href'
        rcases href' with (hold | rfl) | hold
        · exact hstage.known ref' (mem_refs.mpr (.inl hold))
        · exact href
        · exact hstage.known ref' (mem_refs.mpr (.inr hold))
  | acceptStream =>
    split at hstep
    case h_2 => cases hstep
    case h_1 event rest hqueue =>
      cases hstep
      refine h.frame rfl rfl rfl fun ref href => ?_
      rw [mem_refs, mem_append, mem_singleton] at href
      rw [mem_refs, hqueue, getD_some, map_cons, mem_cons]
      rcases href with (hold | hnew) | hold | hold
      · exact .inl hold
      · exact .inr (.inl (.inl hnew))
      · exact .inr (.inl (.inr hold))
      · exact .inr (.inr hold)
  | offer i =>
    split at hstep
    case h_2 => cases hstep
    case h_1 event queue hevent hqueue =>
      split_ifs at hstep
      cases hstep
      refine h.frame rfl rfl rfl fun ref href => ?_
      rw [mem_refs, getD_some, map_append, mem_append] at href
      rw [mem_refs, hqueue, getD_some]
      rcases href with hold | (hold | hnew) | hold | hold
      · exact .inl hold
      · exact .inr (.inl hold)
      · obtain rfl := mem_singleton.mp hnew
        exact .inr (.inr (.inl (mem_map_of_mem (mem_of_getElem? hevent))))
      · exact .inr (.inr (.inl (((eraseIdx_sublist _ _).map Prod.fst).subset hold)))
      · exact .inr (.inr (.inr hold))
  | withdraw i =>
    split_ifs at hstep
    obtain ⟨event, -, c, -, rfl⟩ := bind_map_eq_some hstep
    refine (h.modify hmark event.1 (later_closeNoSend .closedPipe)).frame rfl rfl rfl ?_
    exact (((Sublist.refl _).append ((eraseIdx_sublist _ _).map Prod.fst)).append (.refl _)).subset
  | receive incoming =>
    split_ifs at hstep
    cases incoming <;>
    · cases hstep
      exact h.frame rfl rfl rfl (.refl _)
  | handle => exact h.handleFrame hmark hmet hstep
  | shutdown err order =>
    split_ifs at hstep with hidle
    cases hstep
    exact h.shutdown hidle.1 hidle.2 err _
  | closeNext =>
    split at hstep
    case h_2 => cases hstep
    case h_1 ref rest err hcloser =>
      cases hstep
      exact h.closeNext hmark hcloser
  | signal =>
    split at hstep
    case h_2 => cases hstep
    case h_1 err hcloser =>
      cases hstep
      exact h.of_closer (by rw [hcloser]; rfl) (by simp [hcloser])
  | closeConn =>
    split_ifs at hstep with hcloser
    cases hstep
    exact h.of_closer (by rw [hcloser]; rfl) (by simp [hcloser])
  | remove i =>
    obtain ⟨id, hid, rfl⟩ := map_eq_some_iff.mp hstep
    simp only [orderly, hid, all_some] at hmet
    exact (h.removeStream hmet).frame rfl rfl rfl (.refl _)
  | close ref => exact h.operate hmark later_close hstep
  | closeWrite ref => exact h.operate hmark later_closeWrite hstep
  | closeRead ref => exact h.operate hmark later_closeRead hstep
  | read ref n =>
    split_ifs at hstep
    exact h.operate hmark (later_read n) hstep

omit h in
theorem of_run {acts : List Act} {server : Bool}
    (hrun : Run Multiplex.step (orderly marked · ·) (Multiplex.start server) acts s) : Sound marked s :=
  hrun.invariant (fun ht hmet hstep => ht.step hmark hmet hstep) (.start server)

end

theorem marked_of_isClosed (hclosed : s.isClosed = true) (href : ref ∈ s.handedOut) :
    ∃ c, s.heap[ref]? = some c ∧ marked c = true := by
  have hlt : ref < s.heap.length := h.known ref (mem_append_left _ href)
  refine ⟨s.heap[ref], getElem?_eq_getElem hlt, ?_⟩
  have hcloser : s.closer ≠ .idle ∧ s.closer.streams = [] := by
    simp only [Session.isClosed, decide_eq_true_eq] at hclosed
    rcases hclosed with hc | hc <;> simp [hc, Closer.streams]
  rcases h.kept ref _ (getElem?_eq_getElem hlt) with hmarked | ⟨id, hid⟩ | hlisted
  · exact hmarked
  · rw [h.emptied hcloser.1] at hid
    cases hid
  · rw [hcloser.2] at hlisted
    cases hlisted

end Sound

def Opening.done : Opening → Bool
  | .returned _ | .refused => true
  | _ => false

def Session.settled (s : Session) : Bool :=
  s.isClosed && s.opens.all Opening.done && decide (s.reader = .idle ∨ s.reader = .ended)

theorem isClosed_of_settled (h : s.settled = true) : s.isClosed = true := by
  simp only [Session.settled, Bool.and_eq_true] at h
  exact h.1.1

theorem shutdown_reaches_streams (server : Bool) :
    (∀ acts s, Run step (orderly Stream.closed · ·) (start server) acts s → s.settled = true →
      ∀ ref ∈ s.handedOut, ∃ c, s.heap[ref]? = some c ∧ c.closed = true) ∧
    ∀ acts s, Run step (orderly Stream.shut · ·) (start server) acts s → s.settled = true →
      ∀ ref ∈ s.handedOut, ∃ c, s.heap[ref]? = some c ∧ c.blocked = false := by
  refine ⟨fun acts s hrun hsettled ref href => ?_, fun acts s hrun hsettled ref href => ?_⟩
  · exact (Sound.of_run marking_closed hrun).marked_of_isClosed (isClosed_of_settled hsettled) href
  · obtain ⟨c, hc, hshut⟩ := (Sound.of_run marking_shut hrun).marked_of_isClosed (isClosed_of_settled hsettled) href
    exact ⟨c, hc, by simp [Stream.blocked, hshut]⟩

def threeStreams : List Act :=
  [Act.receive (.frame (.open_ 7 [1])), .handle, .handle, .offer 0, .acceptStream,
    .openStream [2], .advance 0, .advance 0, .advance 0, .write 0 none,
    .receive (.frame (.open_ 9 [])), .handle, .handle,
    .shutdown .closedPipe [1, 2, 0], .closeNext, .closeNext, .closeNext, .signal, .closeConn]

theorem shutdown_reaches_three :
    ∃ s, (Run step (orderly Stream.closed · ·) (start true) threeStreams s ∧ s.settled = true ∧
      s.handedOut = [0, 1, 2]) ∧ ∀ ref ∈ s.handedOut, ∃ c, s.heap[ref]? = some c ∧ c.closed = true := by
  refine (Run.exists_of_decideWhile ?_).imp
    fun s ⟨hrun, hs⟩ => ⟨⟨hrun, hs⟩, (shutdown_reaches_streams true).1 threeStreams s hrun hs.1⟩
  decide +kernel

def lateOpen : List Act :=
  [Act.openStream [], .advance 0, .shutdown .closedPipe [], .advance 0, .advance 0, .write 0 none,
    .signal, .closeConn, .receive .failed, .handle]

theorem late_stream_stays_open :
    ∃ s, Run step anyStep (start false) lateOpen s ∧ s.settled = true ∧ 0 ∈ s.handedOut ∧
      s.heap[0]?.any (fun c => c.closed = false ∧ c.blocked = true) = true := by
  apply Run.exists_of_decide
  decide +kernel

end Hydracore.Sudoku.Multiplex
