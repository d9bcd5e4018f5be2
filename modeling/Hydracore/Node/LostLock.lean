import Hydracore.Node.ManagerLock
import Hydracore.Systems.Tasks

namespace Hydracore.Node

open Systems List Option Connection

namespace Limiter

variable {ι : Type}

def holders (s : Limiter ι) (k : ℕ) : ℕ := s.connections.countP (holds k)

structure Sound (s : Limiter ι) : Prop where
  handles : ∀ k lock, s.locks[k]? = some lock → lock.handles = UInt32.ofNat (s.holders k)
  given : ∀ c ∈ s.connections, ∀ k, c.phase.lock = some k → k < s.locks.length
  mapped : ∀ key k, s.conns key = some k →
    s.locks[k]?.map (fun lock => (lock.getter, lock.id)) = some key ∧ 0 < s.holders k
  failed : ∀ k lock, s.locks[k]? = some lock → lock.failed = true → s.holders k = 0
  timely : ∀ c ∈ s.connections, c.late = false

variable {k : ℕ}

theorem holds_lock {phase : Phase} (h : phase.holds = some k) : phase.lock = some k := by
  cases phase <;> first | exact h | cases h

variable {s : Limiter ι} {i : ℕ} {c : Connection ι} {s' : Limiter ι} {c' : Connection ι}

theorem Sound.keep (h : s.Sound) (hc : s.connections[i]? = some c)
    (hlocks : s'.locks = s.locks) (hconns : s'.conns = s.conns) (hset : s'.connections = s.connections.set i c')
    (hlate : c'.late = false) (hholds : c'.phase.holds = c.phase.holds)
    (hlock : ∀ k, c'.phase.lock = some k → k < s.locks.length) : s'.Sound := by
  have hholders : ∀ k, s'.holders k = s.holders k := by
    intro k
    have hcount := countP_set_add (p := holds k) (b := c') hc
    have hsame : c'.holds k = c.holds k := by rw [holds, holds, hholds]
    rw [hsame] at hcount
    rw [holders, hset]
    exact Nat.add_right_cancel hcount
  refine ⟨?_, ?_, ?_, ?_, ?_⟩
  · intro k lock hk
    rw [hholders]
    exact h.handles k lock (hlocks ▸ hk)
  · rw [hlocks, hset]
    exact forall_mem_set h.given hlock
  · intro key k hk
    rw [hconns] at hk
    rw [hlocks, hholders]
    exact h.mapped key k hk
  · intro k lock hk hfailed
    rw [hholders]
    exact h.failed k lock (hlocks ▸ hk) hfailed
  · rw [hset]
    exact forall_mem_set h.timely hlate

theorem holders_set (hc : s.connections[i]? = some c) (c' : Connection ι) (k : ℕ) :
    (s.connections.set i c').countP (holds k) + (if c.holds k then 1 else 0) =
      s.holders k + (if c'.holds k then 1 else 0) :=
  countP_set_add hc

variable {lock lock' : ManagerLock ι}

theorem Sound.exchange (h : s.Sound) (hc : s.connections[i]? = some c)
    (hlock : s.locks[k]? = some lock) {conns : ℕ × ι → Option ℕ}
    (hkey : (lock'.getter, lock'.id) = (lock.getter, lock.id)) (hlate : c'.late = false)
    (hother : ∀ j, j ≠ k → c'.holds j = c.holds j)
    (hhandles : lock'.handles = UInt32.ofNat ((s.connections.set i c').countP (holds k)))
    (hfailed : lock'.failed = false ∨ (s.connections.set i c').countP (holds k) = 0)
    (hgiven : ∀ j, c'.phase.lock = some j → j < s.locks.length) (hconns : ∀ key j, conns key = some j →
      s.conns key = some j ∧ (j = k → 0 < (s.connections.set i c').countP (holds k))) :
    ({ s with locks := s.locks.set k lock', connections := s.connections.set i c', conns := conns } : Limiter ι).Sound := by
  have hholders : ∀ j, j ≠ k → (s.connections.set i c').countP (holds j) = s.holders j := by
    intro j hj
    have hcount := holders_set hc c' j
    rw [hother j hj] at hcount
    exact Nat.add_right_cancel hcount
  refine ⟨?_, ?_, ?_, ?_, ?_⟩
  · intro j other hj
    obtain ⟨rfl, rfl⟩ | ⟨hne, hold⟩ := getElem?_set_cases hj
    · exact hhandles
    · exact (h.handles j other hold).trans (congrArg UInt32.ofNat (hholders j hne).symm)
  · rw [length_set]
    exact forall_mem_set h.given hgiven
  · intro key j hj
    obtain ⟨hold, hpos⟩ := hconns key j hj
    obtain ⟨hmap, hheld⟩ := h.mapped key j hold
    rcases eq_or_ne j k with rfl | hne
    · rw [hlock, map_some] at hmap
      rw [getElem?_set_self (getElem?_lt hlock), map_some, hkey]
      exact ⟨hmap, hpos rfl⟩
    · rw [getElem?_set_ne hne.symm]
      exact ⟨hmap, hheld.trans_eq (hholders j hne).symm⟩
  · intro j other hj hon
    obtain ⟨rfl, rfl⟩ | ⟨hne, hold⟩ := getElem?_set_cases hj
    · exact hfailed.resolve_left (by rw [hon]; decide)
    · exact (hholders j hne).trans (h.failed j other hold hon)
  · exact forall_mem_set h.timely hlate

theorem Sound.keepLock (h : s.Sound) (hlock : s.locks[k]? = some lock)
    (hkey : (lock'.getter, lock'.id) = (lock.getter, lock.id)) (hhandles : lock'.handles = lock.handles)
    (hfailed : lock'.failed = true → lock.failed = true ∨ s.holders k = 0) :
    ({ s with locks := s.locks.set k lock' } : Limiter ι).Sound := by
  refine ⟨?_, ?_, ?_, ?_, h.timely⟩
  · intro j other hj
    obtain ⟨rfl, rfl⟩ | ⟨-, hold⟩ := getElem?_set_cases hj
    · exact hhandles.trans (h.handles j lock hlock)
    · exact h.handles j other hold
  · intro d hd j hj
    rw [length_set]
    exact h.given d hd j hj
  · intro key j hj
    obtain ⟨hj, hpos⟩ := h.mapped key j hj
    refine ⟨?_, hpos⟩
    rcases eq_or_ne k j with rfl | hne
    · rw [hlock] at hj
      rw [getElem?_set_self (getElem?_lt hlock), map_some, hkey]
      exact hj
    · rw [getElem?_set_ne hne]
      exact hj
  · intro j other hj hon
    obtain ⟨rfl, rfl⟩ | ⟨-, hold⟩ := getElem?_set_cases hj
    · exact (hfailed hon).elim (h.failed j lock hlock) (fun hnone => hnone)
    · exact h.failed j other hold hon

variable [DecidableEq ι]

section

variable (h : s.Sound) (hc : s.connections[i]? = some c)
include h hc

theorem Sound.getLock {getter : ℕ} (hphase : c.phase = .chosen getter) (answer : Option ℕ) :
    (s.getLock i c getter answer).Sound := by
  have hlate := h.timely c (mem_of_getElem? hc)
  have hfree : ∀ j, c.holds j = false := fun j => by rw [holds, hphase]; rfl
  unfold Limiter.getLock
  split
  next k hk =>
    obtain ⟨hkey, hpos⟩ := h.mapped _ k hk
    obtain ⟨lock, hlock, hkey⟩ := map_eq_some_iff.mp hkey
    have hgood : lock.failed = false := by
      by_contra hfailed
      have := h.failed k lock hlock (by simpa using hfailed)
      omega
    have hcount : (s.connections.set i { c with phase := .locked k, late := (s.locks[k]?).any (·.failed) }).countP
        (holds k) = s.holders k + 1 := by
      have hset := holders_set hc { c with phase := .locked k, late := (s.locks[k]?).any (·.failed) } k
      rw [hfree] at hset
      simpa [holds, Phase.holds] using hset
    rw [modify_eq_set hlock]
    refine h.exchange hc hlock rfl ?_ ?_ ?_ (.inl hgood) ?_ ?_
    · rw [hlock, any_some, hgood]
    · intro j hj
      rw [hfree, holds, decide_eq_false_iff_not]
      exact fun hsame => hj (some.inj hsame).symm
    · rw [hcount, h.handles k lock hlock]
      exact (UInt32.ofNat_add _ 1).symm
    · intro j hj
      cases hj
      exact getElem?_lt hlock
    · intro key j hj
      refine ⟨hj, fun _ => ?_⟩
      omega
  next hnone =>
    split
    · exact h.keep hc rfl rfl rfl hlate (by rw [hphase]; rfl) nofun
    next handleId =>
      have hcount : ∀ j, (s.connections.set i { c with phase := .locked s.locks.length }).countP (holds j) =
          s.holders j + if j = s.locks.length then 1 else 0 := by
        intro j
        have hset := holders_set hc { c with phase := .locked s.locks.length } j
        rw [hfree] at hset
        simpa [holds, Phase.holds, eq_comm] using hset
      have hunheld : s.holders s.locks.length = 0 := by
        rw [holders, countP_eq_zero]
        intro d hd hheld
        exact absurd (h.given d hd _ (holds_lock (of_decide_eq_true hheld))) (lt_irrefl _)
      have hlt : ∀ {j : ℕ} {lock : ManagerLock ι}, s.locks[j]? = some lock → j ≠ s.locks.length := fun hj =>
        ((getElem?_lt hj)).ne
      refine ⟨?_, ?_, ?_, ?_, ?_⟩
      · intro j lock hj
        rw [holders, hcount]
        obtain hold | ⟨rfl, rfl⟩ := getElem?_concat_cases hj
        · rw [if_neg (hlt hold), Nat.add_zero]
          exact h.handles j lock hold
        · rw [hunheld, if_pos rfl]
          rfl
      · intro d hd j hj
        rw [length_append, length_singleton]
        rcases mem_or_eq_of_mem_set hd with hold | rfl
        · exact (h.given d hold j hj).trans (Nat.lt_succ_self _)
        · cases hj
          exact Nat.lt_succ_self _
      · intro key j hj
        rw [holders, hcount]
        obtain ⟨rfl, ⟨⟩⟩ | ⟨-, hj⟩ := update_eq_some hj
        · rw [getElem?_concat_length, if_pos rfl]
          exact ⟨rfl, Nat.succ_pos _⟩
        · obtain ⟨hmap, hpos⟩ := h.mapped key j hj
          obtain ⟨lock, hlock, hkey⟩ := map_eq_some_iff.mp hmap
          rw [getElem?_append_of_some hlock, map_some, hkey]
          exact ⟨rfl, Nat.add_pos_left hpos _⟩
      · intro j lock hj hfailed
        rw [holders, hcount]
        obtain hold | ⟨rfl, rfl⟩ := getElem?_concat_cases hj
        · rw [if_neg (hlt hold), Nat.add_zero]
          exact h.failed j lock hold hfailed
        · cases hfailed
      · exact forall_mem_set h.timely hlate

theorem Sound.putLock {lock : ManagerLock ι} (hphase : c.phase = .closing k) (hlock : s.locks[k]? = some lock) :
    (s.putLock i c k lock).Sound := by
  have hlate := h.timely c (mem_of_getElem? hc)
  have hcount : (s.connections.set i { c with phase := .closed k }).countP (holds k) + 1 = s.holders k := by
    have hset := holders_set hc { c with phase := .closed k } k
    simpa [holds, Phase.holds, hphase] using hset
  have hhandles : lock.handles - 1 =
      UInt32.ofNat ((s.connections.set i { c with phase := .closed k }).countP (holds k)) := by
    rw [h.handles k lock hlock, ← hcount, UInt32.ofNat_add]
    exact UInt32.add_sub_cancel _ _
  have hother : ∀ j, j ≠ k → ({ c with phase := .closed k } : Connection ι).holds j = c.holds j := by
    intro j hj
    rw [holds, holds, hphase]
    simp [Phase.holds, hj.symm]
  have hgood : lock.failed = false := by
    by_contra hfailed
    have := h.failed k lock hlock (by simpa using hfailed)
    omega
  have hgiven : ∀ j, ({ c with phase := .closed k } : Connection ι).phase.lock = some j → j < s.locks.length := by
    intro j hj
    cases hj
    exact getElem?_lt hlock
  unfold Limiter.putLock
  split_ifs with hlast
  · refine h.exchange hc hlock rfl hlate hother hhandles (.inl hgood) hgiven ?_
    intro key j hj
    obtain ⟨-, ⟨⟩⟩ | ⟨hne, hj⟩ := update_eq_some hj
    refine ⟨hj, ?_⟩
    rintro rfl
    obtain ⟨hmap, -⟩ := h.mapped key j hj
    rw [hlock, map_some, some.injEq] at hmap
    exact absurd hmap.symm hne
  · refine h.exchange hc hlock rfl hlate hother hhandles (.inl hgood) hgiven ?_
    intro key j hj
    refine ⟨hj, fun _ => ?_⟩
    rw [hhandles] at hlast
    by_contra hnone
    exact hlast (by rw [Nat.eq_zero_of_not_pos hnone]; rfl)

theorem Sound.act {a : Act} (ha : s.act i c a = some s') : s'.Sound := by
  have hmem := mem_of_getElem? hc
  have hlate := h.timely c hmem
  have hgiven := h.given c hmem
  cases a with simp only [Limiter.act] at ha
  | choose =>
    split at ha
    next hphase =>
      split at ha
      all_goals
        cases ha
        exact h.keep hc rfl rfl rfl hlate (by rw [hphase]; rfl) nofun
    next => cases ha
  | lock answer =>
    split at ha
    next getter hphase =>
      cases ha
      exact h.getLock hc hphase answer
    next => cases ha
  | register | close =>
    split at ha
    next k hphase =>
      cases ha
      exact h.keep hc rfl rfl rfl hlate (by rw [hphase]; rfl) (by rw [hphase] at hgiven; exact hgiven)
    next => cases ha
  | check =>
    split at ha
    next k hphase =>
      obtain ⟨-, ha⟩ := ite_none_right_eq_some.mp ha
      cases ha
      exact h.keep hc rfl rfl rfl hlate (by rw [hphase]; rfl) (by rw [hphase] at hgiven; exact hgiven)
    next => cases ha
  | release =>
    split at ha
    next k hphase =>
      obtain ⟨lock, hlock, rfl⟩ := map_eq_some_iff.mp ha
      exact h.putLock hc hphase hlock
    next => cases ha

end

def careful (s : Limiter ι) : Step ι → Bool
  | .lock k (.refreshed ok) => ok || s.holders k = 0
  | _ => true

theorem Sound.step (h : s.Sound) {a : Step ι} (hcareful : s.careful a = true) (ha : s.step a = some s') :
    s'.Sound := by
  cases a with
  | enter user id =>
    cases ha
    have hholders : ∀ k, (s.connections ++ [(⟨user, id, .entered, false, false⟩ : Connection ι)]).countP (holds k) =
        s.holders k := by
      intro k
      rw [countP_append]
      rfl
    refine ⟨fun k lock hk => by rw [holders, hholders]; exact h.handles k lock hk, ?_,
      fun key k hk => by rw [holders, hholders]; exact h.mapped key k hk,
      fun k lock hk hf => by rw [holders, hholders]; exact h.failed k lock hk hf, ?_⟩
    · intro d hd
      rcases mem_concat_cases hd with hold | rfl
      · exact h.given d hold
      · nofun
    · intro d hd
      rcases mem_concat_cases hd with hold | rfl
      · exact h.timely d hold
      · rfl
  | act i a =>
    obtain ⟨c, hc, ha⟩ := bind_eq_some_iff.mp ha
    exact h.act hc ha
  | lock k a =>
    obtain ⟨lock, hlock, lock', hact, rfl⟩ := bind_map_eq_some ha
    cases a with
    | refresh | stop =>
      obtain ⟨-, hact⟩ := ite_none_right_eq_some.mp hact
      cases hact
      exact h.keepLock hlock rfl rfl .inl
    | refreshed ok =>
      obtain ⟨-, hact⟩ := ite_none_left_eq_some.mp hact
      split_ifs at hact with hok
      · cases hact
        exact h.keepLock hlock rfl rfl .inl
      · cases hact
        refine h.keepLock hlock rfl rfl fun _ => .inr ?_
        rw [careful, Bool.or_eq_true, decide_eq_true_iff] at hcareful
        exact hcareful.resolve_left hok
  | updateStrategies strategies =>
    cases ha
    exact { h with }
  | revoke =>
    simp only [Limiter.step] at ha
    split at ha
    · cases ha
    next i revoking _ =>
      cases ha
      cases hc : s.connections[i]? with
      | none =>
        have hsame : (s.connections.modify i fun c => { c with cancelled := true }) = s.connections :=
          modify_eq_self (List.getElem?_eq_none_iff.mp hc)
        rw [hsame]
        exact { h with }
      | some c =>
        have hmem := mem_of_getElem? hc
        rw [modify_eq_set hc]
        exact h.keep hc rfl rfl rfl (h.timely c hmem) rfl (h.given c hmem)

theorem lostLock_closed {acts : List (Step ι)} {s : Limiter ι} (h : Run step (careful · ·) start acts s) :
    (∀ k lock, s.locks[k]? = some lock → lock.failed = true →
      ∀ c ∈ s.connections, c.phase.lock = some k → c.phase = .closed k) ∧
    ∀ c ∈ s.connections, c.late = false := by
  have hsound : s.Sound := h.invariant (fun ht => ht.step) ⟨nofun, nofun, nofun, nofun, nofun⟩
  refine ⟨fun k lock hk hfailed c hc hgiven => ?_, hsound.timely⟩
  have hnone := List.countP_eq_zero.mp (hsound.failed k lock hk hfailed) c hc
  rw [holds, decide_eq_true_iff] at hnone
  cases hphase : c.phase with
  | closed j =>
    rw [hphase] at hgiven
    rw [Option.some.inj hgiven]
  | _ =>
    rw [hphase] at hgiven hnone
    exact absurd hgiven hnone

def refreshedLate : List (Step String) :=
  [.updateStrategies fun _ => some 0, .enter "u" "a", .act 0 .choose, .act 0 (.lock (some 7)), .act 0 .register,
    .lock 0 .refresh, .act 0 .close, .act 0 .release, .lock 0 (.refreshed false), .enter "u" "a", .act 1 .choose,
    .act 1 (.lock (some 8)), .act 1 .register]

theorem lostLock_closed_late :
    ∃ s, Run step (careful · ·) start refreshedLate s ∧ (s.connections.map (·.phase)) = [.closed 0, .admitted 1] ∧
      ((∀ k lock, s.locks[k]? = some lock → lock.failed = true →
        ∀ c ∈ s.connections, c.phase.lock = some k → c.phase = .closed k) ∧ ∀ c ∈ s.connections, c.late = false) := by
  refine (Run.exists_of_decideWhile ?_).imp fun s ⟨hrun, hs⟩ => ⟨hrun, hs, lostLock_closed hrun⟩
  decide +kernel

def refreshFails : List (Step String) :=
  [.updateStrategies fun _ => some 0, .enter "u" "a", .act 0 .choose, .act 0 (.lock (some 7)), .act 0 .register,
    .lock 0 .refresh, .lock 0 (.refreshed false), .enter "u" "a", .act 1 .choose, .act 1 (.lock none), .act 1 .register]

theorem lostLock_open :
    ∃ s, Run step anyStep start refreshFails s ∧ s.revoking = [] ∧ (s.locks.map (·.failed)) = [true] ∧
      (s.connections.map fun c => (c.phase, c.cancelled, c.late)) =
        [(.admitted 0, false, false), (.admitted 0, false, true)] := by
  apply Run.exists_of_decide
  decide +kernel

end Limiter

end Hydracore.Node
