import Hydracore.Xhttp.Mux
import Hydracore.Systems.Tasks

/-!
A loop of `Reset` or `Close` reads the slots of the pool it took one by one, while the pool goes on in the same array.
As long as `GetXmuxClient` only writes slots that the loops have passed, each loop closes what it took.
-/

namespace Hydracore.Xhttp.XmuxManager

open Systems List Option

variable {m m' m'' : XmuxManager} {grow : ℕ → ℕ} {closer : Closer} {c k : ℕ}

structure Grows (m m' : XmuxManager) : Prop where
  length_le : m.clients.length ≤ m'.clients.length
  forced : ∀ c, m.forcedAt c = true → m'.forcedAt c = true

theorem Grows.trans (h : Grows m m') (h' : Grows m' m'') : Grows m m'' :=
  ⟨h.length_le.trans h'.length_le, fun c hc => h'.forced c (h.forced c hc)⟩

theorem Grows.of_clients_eq (h : m'.clients = m.clients) : Grows m m' :=
  ⟨h ▸ le_rfl, fun c hc => by rwa [forcedAt, h]⟩

variable {f : XmuxClient → XmuxClient} {draws : Draws}

theorem grows_onClient (hf : ∀ x, x.forced = true → (f x).forced = true) : Grows m (m.onClient c f) := by
  constructor
  · simp [onClient]
  · intro d hd
    simp only [forcedAt, onClient, getElem?_modify] at hd ⊢
    obtain ⟨x, hx, hforced⟩ := (Option.any_eq_true _ _).mp hd
    rw [hx]
    split_ifs
    · exact hf x hforced
    · exact hforced

theorem grows_append {x : XmuxClient} (h : m'.clients = m.clients ++ [x]) : Grows m m' := by
  constructor
  · simp [h]
  · intro d hd
    obtain ⟨y, hy, hforced⟩ := (Option.any_eq_true _ _).mp hd
    rw [forcedAt, h, getElem?_append_of_some hy]
    exact hforced

def Pooled (m : XmuxManager) : Prop := m.xmuxClients.Holds (· < m.clients.length) m.memory

structure Serves (m m' : XmuxManager) : Prop where
  closers : m'.closers = m.closers
  grows : Grows m m'
  keeps : Memory.Keeps m.xmuxClients.array (m.xmuxClients.len + 1) m.memory m'.memory
  pooled : Pooled m'

structure Trims (m m' : XmuxManager) : Prop where
  closers : m'.closers = m.closers
  grows : Grows m m'
  array : m'.xmuxClients.array = m.xmuxClients.array
  len_le : m'.xmuxClients.len ≤ m.xmuxClients.len
  keeps : Memory.Keeps m.xmuxClients.array m.xmuxClients.len m.memory m'.memory
  pooled : Pooled m'

theorem Trims.refl (h : Pooled m) : Trims m m := ⟨rfl, .of_clients_eq rfl, rfl, le_rfl, .refl _, h⟩

theorem Trims.trans (h : Trims m m') (h' : Trims m' m'') : Trims m m'' where
  closers := h'.closers.trans h.closers
  grows := h.grows.trans h'.grows
  array := h'.array.trans h.array
  len_le := h'.len_le.trans h.len_le
  keeps := h.keeps.trans (h.array ▸ h'.keeps.mono h.len_le)
  pooled := h'.pooled

theorem Trims.serves (h : Trims m m') (h' : Serves m' m'') : Serves m m'' where
  closers := h'.closers.trans h.closers
  grows := h.grows.trans h'.grows
  keeps := (h.keeps.mono (Nat.le_succ _)).trans (h.array ▸ h'.keeps.mono (Nat.succ_le_succ h.len_le))
  pooled := h'.pooled

theorem pooled_of_grows (h : Pooled m) (hgrows : Grows m m') (hmemory : m'.memory = m.memory)
    (hslice : m'.xmuxClients = m.xmuxClients) : Pooled m' := by
  rw [Pooled, hmemory, hslice]
  exact h.mono fun c hc => hc.trans_le hgrows.length_le

theorem trims_onClient (h : Pooled m)
    (hf : ∀ x, x.forced = true → (f x).forced = true) : Trims m (m.onClient c f) :=
  ⟨rfl, grows_onClient hf, rfl, le_rfl, .refl _, pooled_of_grows h (grows_onClient hf) rfl rfl⟩

theorem trims_evict {left : ℕ} {evicted : List ℕ} (h : Pooled m) (hleft : left ≤ m.xmuxClients.len) :
    Trims m (m.evict left evicted).1 := by
  induction left generalizing m evicted with
  | zero => exact .refl h
  | succ left ih =>
    have hi : m.xmuxClients.len - (left + 1) < m.xmuxClients.len := by omega
    rw [evict]
    split_ifs
    · -- one slot is gone and the slots still to visit are the last ones
      refine Trims.trans ?_ (ih (h.remove hi) ?_)
      · exact ⟨rfl, .of_clients_eq rfl, rfl, Nat.sub_le _ _, h.remove_keeps hi, h.remove hi⟩
      · change left ≤ m.xmuxClients.len - 1
        omega
    · exact ih h (by omega)

theorem trims_closeEvicted (evicted : List ℕ) (h : Pooled m) : Trims m (m.closeEvicted evicted) := by
  induction evicted generalizing m with
  | nil => exact .refl h
  | cons c evicted ih =>
    have hclose : Trims m (m.onClient c XmuxClient.close) := trims_onClient h fun _ hx => hx
    exact hclose.trans (ih hclose.pooled)

theorem serves_newXmuxClient (h : Pooled m) : Serves m (m.newXmuxClient grow draws).1 := by
  have hgrows : Grows m (m.newXmuxClient grow draws).1 := grows_append rfl
  refine ⟨rfl, hgrows, Slice.append_keeps _, ?_⟩
  apply Slice.Holds.append
  · exact h.mono fun c hc => hc.trans_le hgrows.length_le
  · simp [newXmuxClient]

theorem Trims.serves_self (h : Trims m m') : Serves m m' :=
  ⟨h.closers, h.grows, h.keeps.mono (Nat.le_succ _), h.pooled⟩

variable {random : ℕ}

theorem serves_choose (h : Pooled m) : Serves m (m.choose grow draws random).1 := by
  unfold choose
  dsimp only
  generalize (if m.concurrency > 0 then _ else _ : List ℕ) = candidates
  split_ifs
  · exact serves_newXmuxClient h
  · exact serves_newXmuxClient h
  · exact serves_newXmuxClient h
  · exact (Trims.refl h).serves_self
  · apply (trims_onClient h _).serves_self
    intro x hx
    split_ifs <;> exact hx

theorem serves_getXmuxClient (h : Pooled m) : Serves m (m.getXmuxClient grow draws random).1 := by
  unfold getXmuxClient
  split_ifs
  · exact (Trims.refl h).serves_self
  · have hevict : Trims m (m.evict m.xmuxClients.len []).1 := trims_evict h le_rfl
    have hclose := trims_closeEvicted (m.evict m.xmuxClients.len []).2 hevict.pooled
    exact (hevict.trans hclose).serves (serves_choose hclose.pooled)

structure Tracked (m : XmuxManager) (closer : Closer) : Prop where
  length : closer.taken.length = closer.slice.len
  seen : closer.hits ++ closer.current.toList = closer.taken.take closer.next
  ahead : ∀ j c, closer.next ≤ j → closer.taken[j]? = some c → m.memory.slot closer.slice.array j = some c
  older : ∀ c ∈ closer.taken, c < closer.born
  born_le : closer.born ≤ m.clients.length
  forced : ∀ c ∈ closer.hits, m.forcedAt c = true

section

variable (h : Tracked m closer)
include h

theorem Tracked.of_grows (hgrows : Grows m m')
    (hahead : ∀ j c, closer.next ≤ j → j < closer.slice.len → m.memory.slot closer.slice.array j = some c →
      m'.memory.slot closer.slice.array j = some c) : Tracked m' closer where
  length := h.length
  seen := h.seen
  ahead j c hj hc := hahead j c hj (h.length ▸ (getElem?_lt hc)) (h.ahead j c hj hc)
  older := h.older
  born_le := h.born_le.trans hgrows.length_le
  forced c hc := hgrows.forced c (h.forced c hc)

theorem Tracked.of_grows_of_memory (hgrows : Grows m m') (hmemory : m'.memory = m.memory) : Tracked m' closer :=
  h.of_grows hgrows fun _ _ _ _ hc => hmemory ▸ hc

theorem Tracked.mem_taken (hc : c ∈ closer.hits ++ closer.current.toList) : c ∈ closer.taken := by
  rw [h.seen] at hc
  exact mem_of_mem_take hc

theorem Tracked.exact : m.Exact closer := by
  constructor
  · intro hreturned c hc
    simp only [Closer.returned, Bool.and_eq_true, isNone_iff_eq_none, decide_eq_true_eq] at hreturned
    obtain ⟨hcurrent, hnext⟩ := hreturned
    have hseen := h.seen
    rw [hcurrent, toList_none, append_nil, take_of_length_le (h.length ▸ hnext)] at hseen
    exact h.forced c (hseen ▸ hc)
  · intro c hc
    exact h.older c (h.mem_taken (mem_append_left _ hc))

end

structure Sound (m : XmuxManager) : Prop where
  pooled : Pooled m
  tracked : ∀ closer ∈ m.closers, Tracked m closer

section

variable (h : Sound m)
include h

theorem Sound.of_grows (hgrows : Grows m m') (hmemory : m'.memory = m.memory)
    (hslice : m'.xmuxClients = m.xmuxClients) (hclosers : m'.closers = m.closers) : Sound m' := by
  refine ⟨pooled_of_grows h.pooled hgrows hmemory hslice, ?_⟩
  rw [hclosers]
  exact fun closer hcloser => (h.tracked closer hcloser).of_grows_of_memory hgrows hmemory

theorem Sound.getXmuxClient
    (hmet : m.orderly (.getXmuxClient draws random) = true) : Sound (m.getXmuxClient grow draws random).1 := by
  by_cases hclosed : m.closed = true
  · rwa [XmuxManager.getXmuxClient, if_pos hclosed]
  have hserves : Serves m (m.getXmuxClient grow draws random).1 := serves_getXmuxClient h.pooled
  refine ⟨hserves.pooled, ?_⟩
  rw [hserves.closers]
  intro closer hcloser
  apply (h.tracked closer hcloser).of_grows hserves.grows
  intro j c hj hlt hc
  apply hserves.keeps _ j c _ hc
  -- the loop is over another array, or it is past the slots the call may write
  simp only [orderly, hclosed, Bool.false_or, List.all_eq_true] at hmet
  have hpassed := hmet closer hcloser
  simp only [passed, Bool.or_eq_true, decide_eq_true_eq, ne_eq] at hpassed
  omega

theorem Sound.takePool : Sound m.takePool := by
  refine ⟨Slice.holds_truncate, ?_⟩
  intro closer hcloser
  rcases mem_concat_cases hcloser with hold | rfl
  · exact (h.tracked closer hold).of_grows_of_memory (.of_clients_eq rfl) rfl
  · exact {
      length := h.pooled.length_read
      seen := rfl
      ahead := by
        intro j c _ hc
        have hlt : j < m.xmuxClients.len := h.pooled.length_read ▸ (getElem?_lt hc)
        exact (Slice.getElem?_read hlt).symm.trans hc
      older := fun c hc => h.pooled.of_mem_read hc
      born_le := le_rfl
      forced := nofun }

theorem Sound.set (hgrows : Grows m m') (hmemory : m'.memory = m.memory)
    (hslice : m'.xmuxClients = m.xmuxClients) (hclosers : m'.closers = m.closers.set k closer)
    (hnew : Tracked m' closer) : Sound m' := by
  refine ⟨pooled_of_grows h.pooled hgrows hmemory hslice, ?_⟩
  rw [hclosers]
  exact forall_mem_set (fun other hother => (h.tracked other hother).of_grows_of_memory hgrows hmemory) hnew

theorem Sound.fetch (hk : m.closers[k]? = some closer) (hm : m.fetch k closer = some m') : Sound m' := by
  have htracked := h.tracked closer (mem_of_getElem? hk)
  obtain ⟨⟨hnone, hlt⟩, hm⟩ := ite_none_right_eq_some.mp hm
  cases hm
  have hnext : closer.next < closer.taken.length := htracked.length ▸ hlt
  have hslot := htracked.ahead closer.next _ le_rfl (getElem?_eq_getElem hnext)
  have hgrows : Grows m { m with
      closers := m.closers.set k
        { closer with next := closer.next + 1, current := m.memory.slot closer.slice.array closer.next } } :=
    .of_clients_eq rfl
  refine h.set hgrows rfl rfl rfl { htracked.of_grows_of_memory hgrows rfl with
    seen := ?_
    ahead := fun j c hj hc => htracked.ahead j c (by simp only at hj; omega) hc
  }
  have hseen := htracked.seen
  rw [isNone_iff_eq_none.mp hnone, toList_none, append_nil] at hseen
  simp only [hslot, toList_some, hseen]
  rw [← concat_eq_append]
  exact take_concat_get hnext

theorem Sound.forceClose (hk : m.closers[k]? = some closer) (hm : m.forceClose k closer = some m') : Sound m' := by
  have htracked := h.tracked closer (mem_of_getElem? hk)
  unfold XmuxManager.forceClose at hm
  cases hcurrent : closer.current with
  | none => simp [hcurrent] at hm
  | some c =>
    rw [hcurrent] at hm
    cases hm
    have hgrows : Grows m (m.onClient c XmuxClient.forceClose) := grows_onClient fun _ _ => rfl
    have hc : c < m.clients.length := by
      apply lt_of_lt_of_le (htracked.older c (htracked.mem_taken _)) htracked.born_le
      simp [hcurrent]
    have hgrows' : Grows m { m.onClient c XmuxClient.forceClose with
        closers := m.closers.set k { closer with current := none, hits := closer.hits ++ [c] } } :=
      ⟨hgrows.length_le, hgrows.forced⟩
    refine h.set hgrows' rfl rfl rfl { htracked.of_grows_of_memory hgrows' rfl with seen := ?_, forced := ?_ }
    · simpa [hcurrent] using htracked.seen
    · exact forall_mem_concat (fun d hd => hgrows'.forced d (htracked.forced d hd))
        (by simp [forcedAt, onClient, getElem?_eq_getElem hc, XmuxClient.forceClose])

theorem Sound.step {a : Step} (hmet : m.orderly a = true) (hm : m.step grow a = some m') : Sound m' := by
  cases a with
  | getXmuxClient draws random =>
    cases hm
    exact h.getXmuxClient hmet
  | reset =>
    cases hm
    unfold reset
    split_ifs
    · exact h
    · exact h.takePool
  | close =>
    cases hm
    unfold close
    split_ifs
    · exact h
    · exact h.takePool.of_grows (.of_clients_eq rfl) rfl rfl rfl
  | fetch k =>
    obtain ⟨closer, hk, hm⟩ := bind_eq_some_iff.mp hm
    exact h.fetch hk hm
  | forceClose k =>
    obtain ⟨closer, hk, hm⟩ := bind_eq_some_iff.mp hm
    exact h.forceClose hk hm
  | addOpenUsage c delta | request c | disconnect c =>
    cases hm
    exact h.of_grows (grows_onClient fun _ hx => hx) rfl rfl rfl
  | tick =>
    cases hm
    exact h.of_grows (.of_clients_eq rfl) rfl rfl rfl

end

theorem closers_exact {concurrency connections : ℤ} {acts : List Step}
    (h : Run (step grow) (orderly · ·) (newXmuxManager concurrency connections) acts m) :
    ∀ closer ∈ m.closers, m.Exact closer := by
  have hsound : Sound m := h.invariant (fun ht => ht.step) (⟨fun _ hj => absurd hj (Nat.not_lt_zero _), nofun⟩)
  exact fun closer hcloser => (hsound.tracked closer hcloser).exact

theorem closers_exact_reset : ∃ m, Run (step id) (orderly · ·) (newXmuxManager 0 0)
    [.getXmuxClient ⟨0, 0, 0⟩ 0, .reset, .fetch 0, .forceClose 0, .getXmuxClient ⟨0, 0, 0⟩ 0] m ∧
    (∀ closer ∈ m.closers, m.Exact closer) ∧ m.forcedAt 0 = true ∧ m.forcedAt 1 = false := by
  refine (Run.exists_of_decideWhile ?_).imp fun m ⟨hrun, hm⟩ => ⟨hrun, closers_exact hrun, hm⟩
  decide +kernel

theorem reset_hits_new_client : ∃ m, Run (step id) anyStep (newXmuxManager 0 0)
    [.getXmuxClient ⟨0, 0, 0⟩ 0, .reset, .getXmuxClient ⟨0, 0, 0⟩ 0, .fetch 0, .forceClose 0] m ∧
    ∃ closer ∈ m.closers, closer.returned = true ∧ closer.taken = [0] ∧ m.forcedAt 0 = false ∧
      closer.hits = [1] ∧ closer.born = 1 := by
  apply Run.exists_of_decide
  decide +kernel

end Hydracore.Xhttp.XmuxManager
