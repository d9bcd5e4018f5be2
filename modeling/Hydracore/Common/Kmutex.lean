import Hydracore.Systems.Runs
import Hydracore.Systems.Tasks

namespace Hydracore.Common

open Systems Option Function

/-- `ref` counts the holder and those waiting; `signals` the waiters that have been woken and have yet to return. -/
structure Klock where
  ref : ℕ
  signals : ℕ

abbrev Kmutex (κ : Type) := κ → Option Klock

namespace Kmutex

variable {κ : Type}

def new : Kmutex κ := fun _ => none

def ref (km : Kmutex κ) (key : κ) : ℕ := ((km key).map Klock.ref).getD 0

def Balanced (km : Kmutex κ) (key : κ) (holding waiting : ℕ) : Prop :=
  match km key with
  | none => holding = 0 ∧ waiting = 0
  | some kl => 0 < kl.ref ∧ kl.ref = holding + waiting ∧ holding + kl.signals = 1

section

variable {km km' : Kmutex κ} {key : κ} {holding waiting : ℕ}

section

variable (h : km.Balanced key holding waiting)
include h

theorem Balanced.of_eq (heq : km' key = km key) : km'.Balanced key holding waiting := by
  simpa only [Balanced, heq] using h

theorem Balanced.ref_eq : km.ref key = holding + waiting := by
  cases hkey : km key with
  | none | some kl =>
    simp only [Balanced, hkey] at h
    simp [ref, hkey, h]

theorem Balanced.holding_le_one : holding ≤ 1 := by
  cases hkey : km key <;> simp only [Balanced, hkey] at h <;> omega

end

theorem Balanced.eq_none (h : km.Balanced key 0 0) : km key = none := by
  cases hkey : km key with
  | none => rfl
  | some kl =>
    simp only [Balanced, hkey] at h
    omega

end

variable [DecidableEq κ]

def lock (km : Kmutex κ) (key : κ) : Kmutex κ :=
  match km key with
  | none => update km key (some ⟨1, 0⟩)
  | some kl => update km key (some { kl with ref := kl.ref + 1 })

def wake (km : Kmutex κ) (key : κ) : Option (Kmutex κ) :=
  match km key with
  | none => none
  | some kl => if kl.signals = 0 then none else some (update km key (some { kl with signals := kl.signals - 1 }))

/-- `none` is the panic "unlock of unlocked kmutex". -/
def unlock (km : Kmutex κ) (key : κ) : Option (Kmutex κ) :=
  match km key with
  | none => none
  | some kl =>
    if kl.ref = 0 then none
    else if kl.ref = 1 then some (update km key none)
    else some (update km key (some ⟨kl.ref - 1, kl.signals + 1⟩))

section

variable {km km' : Kmutex κ} {key other : κ} {holding waiting : ℕ}

theorem lock_ne (h : other ≠ key) : km.lock key other = km other := by
  unfold lock
  cases km key <;> exact update_of_ne h _ _

theorem wake_ne (h : other ≠ key) (hwake : km.wake key = some km') : km' other = km other := by
  unfold wake at hwake
  cases hkey : km key with
  | none => simp [hkey] at hwake
  | some kl =>
    simp only [hkey] at hwake
    obtain ⟨_, ⟨⟩⟩ := ite_none_left_eq_some.mp hwake
    exact update_of_ne h _ _

theorem unlock_ne (h : other ≠ key) (hunlock : km.unlock key = some km') : km' other = km other := by
  unfold unlock at hunlock
  cases hkey : km key with
  | none => simp [hkey] at hunlock
  | some kl =>
    simp only [hkey] at hunlock
    split_ifs at hunlock <;> cases hunlock <;> exact update_of_ne h _ _

theorem Balanced.lock_free (h : km.Balanced key holding waiting) (hfree : km key = none) :
    (km.lock key).Balanced key (holding + 1) waiting := by
  simp only [Balanced, hfree] at h
  simp [Balanced, lock, hfree, h]

theorem Balanced.lock_taken (h : km.Balanced key holding waiting) (htaken : km key ≠ none) :
    (km.lock key).Balanced key holding (waiting + 1) := by
  obtain ⟨kl, hkl⟩ := ne_none_iff_exists'.mp htaken
  simp only [Balanced, hkl] at h
  simp only [Balanced, lock, hkl, update_self]
  omega

theorem Balanced.wake (h : km.Balanced key holding (waiting + 1)) (hwake : km.wake key = some km') :
    km'.Balanced key (holding + 1) waiting := by
  unfold Kmutex.wake at hwake
  cases hkey : km key with
  | none => simp [hkey] at hwake
  | some kl =>
    simp only [Balanced, hkey] at h hwake
    obtain ⟨_, ⟨⟩⟩ := ite_none_left_eq_some.mp hwake
    simp only [Balanced, update_self]
    omega

theorem Balanced.unlock (h : km.Balanced key (holding + 1) waiting) (hunlock : km.unlock key = some km') :
    km'.Balanced key holding waiting := by
  unfold Kmutex.unlock at hunlock
  cases hkey : km key with
  | none => simp [hkey] at hunlock
  | some kl =>
    simp only [Balanced, hkey] at h hunlock
    split_ifs at hunlock <;> cases hunlock <;> simp only [Balanced, update_self] <;> omega

theorem Balanced.unlock_isSome (h : km.Balanced key (holding + 1) waiting) : (km.unlock key).isSome = true := by
  cases hkey : km key with
  | none => simp [Balanced, hkey] at h
  | some kl =>
    simp only [Balanced, hkey] at h
    simp only [Kmutex.unlock, hkey]
    split_ifs with hzero
    · omega
    · rfl
    · rfl

theorem Balanced.wake_isSome (h : km.Balanced key 0 (waiting + 1)) : (km.wake key).isSome = true := by
  cases hkey : km key with
  | none => simp [Balanced, hkey] at h
  | some kl =>
    simp only [Balanced, hkey] at h
    simp only [Kmutex.wake, hkey]
    rw [if_neg (by omega)]
    rfl

inductive Move (km km' : Kmutex κ) : Option κ → Option κ → Option κ → Option κ → Prop
  | stay {held wanted : Option κ} (same : km' = km) : Move km km' held wanted held wanted
  | take (key : κ) (free : km key = none) (locked : km' = km.lock key) : Move km km' none none (some key) none
  | wait (key : κ) (taken : km key ≠ none) (locked : km' = km.lock key) : Move km km' none none none (some key)
  | wake (key : κ) (woken : km.wake key = some km') : Move km km' none (some key) (some key) none
  | release (key : κ) (unlocked : km.unlock key = some km') : Move km km' (some key) none none none

theorem Move.balanced {τ : Type} {tasks : List τ} {held wanted : τ → Option κ} {i : ℕ} {task next : τ}
    (hmove : Move km km' (held task) (wanted task) (held next) (wanted next)) (htask : tasks[i]? = some task)
    (hbalanced : km.Balanced key (tasks.countP fun task => held task = some key)
      (tasks.countP fun task => wanted task = some key)) :
    km'.Balanced key ((tasks.set i next).countP fun task => held task = some key)
      ((tasks.set i next).countP fun task => wanted task = some key) := by
  have hheld := countP_set_add (p := fun task => held task = some key) (b := next) htask
  have hwanted := countP_set_add (p := fun task => wanted task = some key) (b := next) htask
  simp only [decide_eq_true_eq] at hheld hwanted
  generalize held task = a, wanted task = b, held next = c, wanted next = d at hmove hheld hwanted
  cases hmove
  case stay same => rwa [same, Nat.add_right_cancel hheld, Nat.add_right_cancel hwanted]
  all_goals simp only [some.injEq, reduceCtorEq, if_false, Nat.add_zero] at hheld hwanted
  case take taken free locked =>
    rw [locked, hheld, hwanted]
    split_ifs with heq
    · subst heq
      exact hbalanced.lock_free free
    · exact hbalanced.of_eq (lock_ne (Ne.symm heq))
  case wait wantedKey taken locked =>
    rw [locked, hheld, hwanted]
    split_ifs with heq
    · subst heq
      exact hbalanced.lock_taken taken
    · exact hbalanced.of_eq (lock_ne (Ne.symm heq))
  case wake wokenKey woken =>
    by_cases heq : wokenKey = key
    · subst heq
      simp only [if_true] at hheld hwanted
      rw [hheld]
      rw [← hwanted] at hbalanced
      exact hbalanced.wake woken
    · simp only [heq, if_false, Nat.add_zero] at hheld hwanted
      rw [hheld, hwanted]
      exact hbalanced.of_eq (wake_ne (Ne.symm heq) woken)
  case release released unlocked =>
    by_cases heq : released = key
    · subst heq
      simp only [if_true] at hheld hwanted
      rw [hwanted]
      rw [← hheld] at hbalanced
      exact hbalanced.unlock unlocked
    · simp only [heq, if_false, Nat.add_zero] at hheld hwanted
      rw [hheld, hwanted]
      exact hbalanced.of_eq (unlock_ne (Ne.symm heq) unlocked)

def signals (km : Kmutex κ) (key : κ) : ℕ := ((km key).map Klock.signals).getD 0

end

/-- A goroutine has a slot for each key it holds and for the one it waits for. -/
inductive Slot (κ : Type)
  | idle
  | waiting (key : κ)
  | holding (key : κ)
  deriving DecidableEq

inductive Use (κ : Type)
  | lock (i : ℕ) (key : κ)
  | wake (i : ℕ)
  | unlock (i : ℕ)

structure Users (κ : Type) where
  km : Kmutex κ
  slots : List (Slot κ)

def Slot.held : Slot κ → Option κ
  | .holding key => some key
  | _ => none

def Slot.wanted : Slot κ → Option κ
  | .waiting key => some key
  | _ => none

namespace Users

def start (n : ℕ) : Users κ := ⟨new, List.replicate n .idle⟩

section

variable (s : Users κ) (key : κ)

def holding : ℕ := s.slots.countP fun slot => slot.held = some key

def waiting : ℕ := s.slots.countP fun slot => slot.wanted = some key

/-- The waiter that `Signal` has woken holds the key, though its `Wait` has yet to return. -/
def holders : ℕ := s.holding key + s.km.signals key

def waiters : ℕ := s.waiting key - s.km.signals key

def step : Use κ → Option (Users κ)
  | .lock i key =>
    if s.slots[i]? = some .idle then
      some ⟨s.km.lock key, s.slots.set i (if (s.km key).isNone then .holding key else .waiting key)⟩
    else none
  | .wake i =>
    match s.slots[i]? with
    | some (.waiting key) => (s.km.wake key).map fun km => ⟨km, s.slots.set i (.holding key)⟩
    | _ => none
  | .unlock i =>
    match s.slots[i]? with
    | some (.holding key) => (s.km.unlock key).map fun km => ⟨km, s.slots.set i .idle⟩
    | _ => none

end

def Sound (s : Users κ) : Prop := ∀ key, s.km.Balanced key (s.holding key) (s.waiting key)

variable {s s' : Users κ}

theorem Sound.step {a : Use κ} (h : s.Sound) (_ : anyStep s a) (hs : s.step a = some s') : s'.Sound := by
  intro other
  cases a with
  | lock i key =>
    obtain ⟨hslot, hs⟩ := ite_none_right_eq_some.mp hs
    cases hs
    refine Move.balanced ?_ hslot (h other)
    split_ifs with hfree
    · exact .take key (isNone_iff_eq_none.mp hfree) rfl
    · exact .wait key (mt isNone_iff_eq_none.mpr hfree) rfl
  | wake i =>
    simp only [Users.step] at hs
    split at hs
    · next key hslot =>
      obtain ⟨km, hwake, rfl⟩ := map_eq_some_iff.mp hs
      exact Move.balanced (.wake key hwake) hslot (h other)
    · cases hs
  | unlock i =>
    simp only [Users.step] at hs
    split at hs
    · next key hslot =>
      obtain ⟨km, hunlock, rfl⟩ := map_eq_some_iff.mp hs
      exact Move.balanced (.release key hunlock) hslot (h other)
    · cases hs

theorem Sound.exists_wake {key : κ} (h : s.Sound) (hsignals : 0 < s.km.signals key) :
    ∃ i s', s.slots[i]? = some (.waiting key) ∧ s.step (.wake i) = some s' ∧ s'.slots = s.slots.set i (.holding key) := by
  have hbalanced := h key
  cases hkey : s.km key with
  | none => simp [signals, hkey] at hsignals
  | some kl =>
    simp only [Balanced, hkey] at hbalanced
    simp only [signals, hkey, map_some, getD_some] at hsignals
    -- the one that unlocked has left the count, so somebody waits
    have hwaiting : 0 < s.waiting key := by omega
    obtain ⟨slot, hmem, hwanted⟩ := List.countP_pos_iff.mp hwaiting
    obtain ⟨i, hi⟩ := List.mem_iff_getElem?.mp hmem
    obtain rfl : slot = .waiting key := by cases slot <;> simp_all [Slot.wanted]
    refine ⟨i, ⟨update s.km key (some { kl with signals := kl.signals - 1 }), _⟩, hi, ?_, rfl⟩
    simp only [Users.step, hi, Kmutex.wake, hkey, if_neg hsignals.ne', map_some]

theorem exclusive {n : ℕ} {uses : List (Use κ)} (h : Run step anyStep (start n) uses s) (key : κ) :
    s.holders key ≤ 1 ∧ (0 < s.waiters key → s.holders key = 1) ∧
      s.km.ref key = s.holders key + s.waiters key ∧ (s.km key ≠ none ↔ s.holders key = 1) ∧
      s.km.signals key ≤ s.waiting key ∧ (0 < s.km.signals key → ∃ i s', s.slots[i]? = some (.waiting key) ∧
        s.step (.wake i) = some s' ∧ s'.slots = s.slots.set i (.holding key)) := by
  have hstart : Sound (start n : Users κ) := fun key => by
    simp [Balanced, start, new, holding, waiting, Slot.held, Slot.wanted, List.countP_replicate]
  have hsound := h.invariant .step hstart
  refine ⟨?_, ?_, ?_, ?_, ?_, hsound.exists_wake⟩
  all_goals
    have hbalanced := hsound key
    cases hkey : s.km key <;> simp [Balanced, hkey] at hbalanced <;> simp [holders, waiters, ref, signals, hkey] <;> omega

theorem exclusive_handedOver : ∃ s, Run step anyStep (start 2) [.lock 0 7, .lock 1 7, .unlock 0] s ∧
    s.slots = [.idle, .waiting 7] ∧ s.holders 7 ≤ 1 ∧ ∃ i s', s.step (.wake i) = some s' ∧
      s'.slots = s.slots.set i (.holding 7) := by
  obtain ⟨s, hrun, hslots, hsignals⟩ : ∃ s, Run step anyStep (start 2) [.lock 0 7, .lock 1 7, .unlock 0] s ∧
      s.slots = [.idle, .waiting 7] ∧ 0 < s.km.signals 7 := Run.exists_of_decide rfl
  obtain ⟨hone, -, -, -, -, hwake⟩ := exclusive hrun 7
  obtain ⟨i, s', -, hwoken⟩ := hwake hsignals
  exact ⟨s, hrun, hslots, hone, i, s', hwoken⟩

end Users

end Kmutex

end Hydracore.Common
