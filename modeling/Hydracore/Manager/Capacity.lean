import Hydracore.Manager.Locks
import Hydracore.Systems.Tasks

namespace Hydracore.Manager

open Systems List Option Function Lock AList Dict

variable {ι : Type}

def Lock.key (lock : Lock ι) : ℤ × ℕ × ι := (lock.limiter, lock.table, lock.id)

variable {lock : Lock ι}

theorem Lock.live_filter {now : ℕ} {keep : ℕ × ℕ → Bool}
    (h : ({ lock with items := lock.items.filter keep } : Lock ι).live now = true) : lock.live now = true := by
  obtain ⟨item, hitem, hlive⟩ := List.any_eq_true.mp h
  exact List.any_eq_true.mpr ⟨item, mem_of_mem_filter hitem, hlive⟩

theorem Lock.live_of_le {now later : ℕ} (hle : now ≤ later) (h : lock.live later = true) :
    lock.live now = true := by
  obtain ⟨item, hitem, hlive⟩ := List.any_eq_true.mp h
  exact List.any_eq_true.mpr ⟨item, hitem, decide_eq_true (hle.trans (of_decide_eq_true hlive))⟩

variable {lock lock' : Lock ι}

theorem Lock.replace_live {now handle : ℕ} (h : lock.replace now handle = some lock') :
    lock'.key = lock.key ∧ lock.live now = true := by
  obtain ⟨hfound, h⟩ := ite_none_right_eq_some.mp h
  cases h
  obtain ⟨item, hitem, hlive⟩ := List.any_eq_true.mp hfound
  exact ⟨rfl, List.any_eq_true.mpr ⟨item, hitem, decide_eq_true (of_decide_eq_true hlive).2⟩⟩

theorem keys_set {locks : List (Lock ι)} {k : ℕ} (h : locks[k]? = some lock)
    (hkey : lock'.key = lock.key) (j : ℕ) : (locks.set k lock')[j]?.map key = locks[j]?.map key := by
  rcases eq_or_ne k j with rfl | hne
  · rw [getElem?_set_self (getElem?_lt h), h, map_some, map_some, hkey]
  · rw [getElem?_set_ne hne]

theorem live_set {locks : List (Lock ι)} {k now : ℕ} (h : locks[k]? = some lock)
    (hlive : lock'.live now = true → lock.live now = true) (j : ℕ) (a b : Lock ι)
    (ha : (locks.set k lock')[j]? = some a) (hb : locks[j]? = some b) (hon : a.live now = true) : b.live now = true := by
  obtain ⟨rfl, rfl⟩ | ⟨-, hold⟩ := getElem?_set_cases ha
  · cases h.symm.trans hb
    exact hlive hon
  · cases hold.symm.trans hb
    exact hon

namespace Service

variable [DecidableEq ι]

/-- Each live handle is in a cache that the map of its limiter has, and no map has more ids than its limiter allows. -/
structure Kept (s : Service ι) : Prop where
  made : ∀ l t, s.limiterLocks l = some t → t < s.tables.length
  own : ∀ l l' t, s.limiterLocks l = some t → s.limiterLocks l' = some t → l = l'
  entry : ∀ l t id k, s.limiterLocks l = some t → (s.tableAt t).lookup id = some k →
    s.locks[k]?.map key = some (l, t, id)
  tracked : ∀ k lock, s.locks[k]? = some lock → lock.live s.now = true →
    s.limiterLocks lock.limiter = some lock.table ∧ (s.tableAt lock.table).lookup lock.id = some k
  bounded : ∀ l t row, s.limiterLocks l = some t → s.limiters l = some row → row.lockType = .manager →
    Dict.size (s.tableAt t) ≤ row.count.toNat

variable {s : Service ι} {s' : Service ι}

theorem Kept.of_locks (h : s.Kept) (hlimiters : s'.limiters = s.limiters)
    (hmaps : s'.limiterLocks = s.limiterLocks) (htables : s'.tables = s.tables)
    (hkeys : ∀ k : ℕ, s'.locks[k]?.map key = s.locks[k]?.map key)
    (hlive : ∀ (k : ℕ) (lock' lock : Lock ι), s'.locks[k]? = some lock' → s.locks[k]? = some lock → lock'.live s'.now = true →
      lock.live s.now = true) : s'.Kept := by
  have htableAt : s'.tableAt = s.tableAt := by funext t; rw [tableAt, tableAt, htables]
  refine ⟨by rw [hmaps, htables]; exact h.made, by rw [hmaps]; exact h.own, ?_, ?_, ?_⟩
  · rw [hmaps, htableAt]
    intro l t id k hl hk
    rw [hkeys]
    exact h.entry l t id k hl hk
  · intro k lock' hk hon
    have hkey := hkeys k
    rw [hk, map_some] at hkey
    obtain ⟨lock, hlock, hkey⟩ := map_eq_some_iff.mp hkey.symm
    obtain ⟨hl, ht⟩ := h.tracked k lock hlock (hlive k lock' lock hk hlock hon)
    simp only [key, Prod.mk.injEq] at hkey
    rw [hmaps, htableAt, ← hkey.1, ← hkey.2.1, ← hkey.2.2]
    exact ⟨hl, ht⟩
  · rw [hmaps, hlimiters, htableAt]
    exact h.bounded

theorem Kept.evict (h : s.Kept) {k : ℕ} {gone : ℕ × ℕ → Bool} (he : s.evict k gone = some s') :
    s'.Kept := by
  obtain ⟨lock, hlock, rfl⟩ := map_eq_some_iff.mp he
  exact h.of_locks rfl rfl rfl (keys_set hlock rfl) (live_set hlock live_filter)

theorem Kept.refreshLock (h : s.Kept) (limiter : ℤ) (id : ι) (handle : ℕ) : (s.refreshLock limiter id handle).1.Kept := by
  unfold Service.refreshLock
  split
  · exact h
  next k hk =>
    split
    · exact h
    next lock' hreplace =>
      obtain ⟨lock, hlock, hreplace⟩ := bind_eq_some_iff.mp hreplace
      obtain ⟨hkey, hon⟩ := replace_live hreplace
      exact h.of_locks rfl rfl rfl (keys_set hlock hkey) (live_set hlock fun _ => hon)

theorem Kept.releaseLock (h : s.Kept) (limiter : ℤ) (id : ι) (handle : ℕ) : (s.releaseLock limiter id handle).1.Kept := by
  unfold Service.releaseLock
  split
  · exact h
  · exact { h with }

theorem Kept.tick (h : s.Kept) (n : ℕ) : ({ s with now := s.now + n } : Service ι).Kept := by
  refine h.of_locks rfl rfl rfl (fun _ => rfl) ?_
  intro k lock' lock hk hlock hon
  cases hk.symm.trans hlock
  exact live_of_le (Nat.le_add_right _ _) hon

theorem getD_modify {α : Type} (l : List α) (t j : ℕ) (f : α → α) (d : α) :
    (l.modify t f).getD j d = if j = t ∧ t < l.length then f (l.getD j d) else l.getD j d := by
  rw [getD_eq_getElem?_getD, getD_eq_getElem?_getD, getElem?_modify]
  split_ifs with ht hj hj
  · obtain ⟨rfl, hlt⟩ := hj
    rw [getElem?_eq_getElem hlt]
    rfl
  · have hout : l[j]? = none := getElem?_eq_none (by omega)
    rw [hout]
    rfl
  · exact absurd hj.1.symm ht
  · rw [id_map']

theorem Kept.onEvicted (h : s.Kept) {k : ℕ} (hlock : s.locks[k]? = some lock)
    (hentry : ∀ j, (s.tableAt lock.table).lookup lock.id = some j → j = k) : (s.onEvicted lock).Kept := by
  unfold Service.onEvicted
  split_ifs with hempty
  swap
  · exact h
  have hoff : lock.live s.now = false := by
    rw [live, List.isEmpty_iff.mp hempty]
    rfl
  have htableAt : ∀ t, ({ s with tables := s.tables.modify lock.table fun table => table.erase lock.id } :
      Service ι).tableAt t = if t = lock.table ∧ lock.table < s.tables.length then (s.tableAt t).erase lock.id
        else s.tableAt t := fun t => getD_modify _ _ _ _ _
  refine ⟨fun l t hl => by rw [length_modify]; exact h.made l t hl, h.own, ?_, ?_, ?_⟩
  · intro l t id j hl hj
    apply h.entry l t id j hl
    rw [htableAt] at hj
    split_ifs at hj
    · exact (lookup_erase_some hj).2
    · exact hj
  · intro j other hj hon
    obtain ⟨hl, ht⟩ := h.tracked j other hj hon
    refine ⟨hl, ?_⟩
    rw [htableAt]
    split_ifs with htable
    · rcases eq_or_ne other.id lock.id with hid | hid
      · -- the cache that the map has for the id is the one without handles
        rw [htable.1, hid] at ht
        obtain rfl := hentry j ht
        cases hj.symm.trans hlock
        rw [hoff] at hon
        cases hon
      · rw [lookup_erase_ne hid]
        exact ht
    · exact ht
  · intro l t row hl hrow htype
    refine le_trans ?_ (h.bounded l t row hl hrow htype)
    rw [htableAt]
    split_ifs
    · exact (List.kerase_sublist _ _).length_le
    · rfl

theorem getD_concat_default {α : Type} (l : List α) (j : ℕ) (d : α) : (l ++ [d]).getD j d = l.getD j d := by
  rw [getD_eq_getElem?_getD, getD_eq_getElem?_getD]
  rcases Nat.lt_trichotomy j l.length with hlt | rfl | hgt
  · rw [getElem?_append_left hlt]
  · simp
  · rw [getElem?_eq_none (by simp; omega), getElem?_eq_none (by omega)]

omit [DecidableEq ι] in
theorem tableAt_of_le {t : ℕ} (h : s.tables.length ≤ t) : s.tableAt t = ∅ := by
  rw [tableAt, getD_eq_getElem?_getD, getElem?_eq_none h]
  rfl

theorem Kept.ensureTable (h : s.Kept) (l : ℤ) :
    (s.ensureTable l).1.Kept ∧ (s.ensureTable l).1.limiterLocks l = some (s.ensureTable l).2 ∧
      (s.ensureTable l).1.limiters = s.limiters ∧ (s.ensureTable l).1.liveIds = s.liveIds := by
  unfold Service.ensureTable
  split
  next t ht => exact ⟨h, ht, rfl, rfl⟩
  next hnone =>
    have htableAt : ∀ t, ({ s with
        tables := s.tables ++ [∅]
        limiterLocks := update s.limiterLocks l (some s.tables.length) } : Service ι).tableAt t = s.tableAt t :=
      fun t => getD_concat_default _ _ _
    refine ⟨⟨?_, ?_, ?_, ?_, ?_⟩, update_self _ _ _, rfl, rfl⟩
    · intro l' t ht
      rw [length_append, length_singleton]
      -- the map of a limiter is one it had, or the new one
      obtain ⟨-, ⟨⟩⟩ | ⟨-, ht⟩ := update_eq_some ht
      · omega
      · have := h.made l' t ht
        omega
    · intro a b t ha hb
      obtain ⟨rfl, ⟨⟩⟩ | ⟨-, hold⟩ := update_eq_some ha
      · obtain ⟨rfl, -⟩ | ⟨-, hother⟩ := update_eq_some hb
        · rfl
        · exact absurd (h.made b _ hother) (lt_irrefl _)
      · obtain ⟨rfl, ⟨⟩⟩ | ⟨-, hother⟩ := update_eq_some hb
        · exact absurd (h.made a _ hold) (lt_irrefl _)
        · exact h.own a b t hold hother
    · intro l' t id k ht hk
      rw [htableAt] at hk
      obtain ⟨-, ⟨⟩⟩ | ⟨-, ht⟩ := update_eq_some ht
      · rw [tableAt_of_le le_rfl] at hk
        simp at hk
      · exact h.entry l' t id k ht hk
    · intro k lock hk hon
      obtain ⟨hl, ht⟩ := h.tracked k lock hk hon
      rw [htableAt]
      refine ⟨(update_of_ne ?_ _ _).trans hl, ht⟩
      rintro rfl
      rw [hnone] at hl
      cases hl
    · intro l' t row ht hrow htype
      rw [htableAt]
      obtain ⟨-, ⟨⟩⟩ | ⟨-, ht⟩ := update_eq_some ht
      · rw [tableAt_of_le le_rfl]
        exact Nat.zero_le _
      · exact h.bounded l' t row ht hrow htype

variable {l : ℤ} {id : ι}

theorem Kept.handOut (h : s.Kept) {t k : ℕ} (hl : s.limiterLocks l = some t)
    (hk : (s.tableAt t).lookup id = some k) (uuid : Bool) : (s.handOut k uuid).1.Kept := by
  unfold Service.handOut
  split_ifs
  swap
  · exact h
  have hentry := h.entry l t id k hl hk
  have hkeys : ∀ j : ℕ, (s.locks.modify k fun lock =>
      { lock with items := lock.items ++ [(s.handles, s.now + lifetime)] })[j]?.map key = s.locks[j]?.map key := by
    intro j
    rw [getElem?_modify]
    split_ifs
    all_goals cases s.locks[j]? <;> rfl
  refine ⟨h.made, h.own, ?_, ?_, h.bounded⟩
  · intro l' t' id' j hl' hj
    exact (hkeys j).trans (h.entry l' t' id' j hl' hj)
  · intro j lock' hj hon
    have hkey := hkeys j
    rw [hj, map_some] at hkey
    rcases eq_or_ne k j with rfl | hne
    · rw [hentry, some.injEq, key, Prod.mk.injEq, Prod.mk.injEq] at hkey
      rw [hkey.1, hkey.2.1, hkey.2.2]
      exact ⟨hl, hk⟩
    · simp only [getElem?_modify, hne, ↓reduceIte, id_map'] at hj
      exact h.tracked j lock' hj hon

theorem Kept.newLock (h : s.Kept) {t : ℕ} {row : ConnectionLimiter} (hl : s.limiterLocks l = some t)
    (hrow : s.limiters l = some row) (hid : (s.tableAt t).lookup id = none)
    (hroom : size (s.tableAt t) < row.count.toNat) :
    (s.newLock l t id).Kept ∧ ((s.newLock l t id).tableAt t).lookup id = some s.locks.length := by
  have htable := h.made l t hl
  have htableAt : ∀ j, (s.newLock l t id).tableAt j =
      if j = t then (s.tableAt j).insert id s.locks.length else s.tableAt j := by
    intro j
    refine (getD_modify _ _ _ _ _).trans ?_
    simp only [htable, and_true]
    rfl
  have hself : ((s.newLock l t id).tableAt t).lookup id = some s.locks.length := by
    rw [htableAt, if_pos rfl, lookup_insert]
  refine ⟨⟨?_, h.own, ?_, ?_, ?_⟩, hself⟩
  · intro l' t' hl'
    rw [Service.newLock, length_modify]
    exact h.made l' t' hl'
  · intro l' t' id' j hl' hj
    have hold : ∀ {id''}, (s.tableAt t').lookup id'' = some j →
        (s.newLock l t id).locks[j]?.map key = some (l', t', id'') := by
      intro id'' hj
      have hentry := h.entry l' t' id'' j hl' hj
      obtain ⟨lock, hlock, hkey⟩ := map_eq_some_iff.mp hentry
      rw [Service.newLock, getElem?_append_of_some hlock, map_some, hkey]
    rw [htableAt] at hj
    split_ifs at hj with ht
    · obtain ⟨rfl, rfl⟩ | ⟨-, hj⟩ := lookup_insert_some hj
      · rw [newLock, getElem?_concat_length, map_some, key, h.own l l' t hl (ht ▸ hl'), ht]
      · exact hold hj
    · exact hold hj
  · intro j lock hj hon
    obtain hj | ⟨rfl, rfl⟩ := getElem?_concat_cases hj
    · obtain ⟨hl', ht'⟩ := h.tracked j lock hj hon
      refine ⟨hl', ?_⟩
      rw [htableAt]
      split_ifs with ht
      · rw [lookup_insert_ne, ht']
        intro hsame
        rw [ht, hsame, hid] at ht'
        cases ht'
      · exact ht'
    · cases hon
  · intro l' t' row' hl' hrow' htype
    rw [htableAt]
    split_ifs with ht
    · obtain rfl := h.own l l' t' (ht ▸ hl) hl'
      cases hrow.symm.trans hrow'
      rw [ht, size_insert hid]
      exact hroom
    · exact h.bounded l' t' row' hl' hrow' htype

theorem Kept.acquireLock (h : s.Kept) (limiterId : ℤ) (id : ι) (uuid : Bool) :
    (s.acquireLock limiterId id uuid).1.Kept := by
  unfold Service.acquireLock
  split
  · exact h
  next limiter hlimiter =>
    split_ifs with htype
    · exact h
    obtain ⟨hkept, htable, hrows, -⟩ := h.ensureTable limiterId
    rcases hens : s.ensureTable limiterId with ⟨s', t⟩
    simp only [hens] at hkept htable hrows ⊢
    rw [← hrows] at hlimiter
    split
    next k hk => exact hkept.handOut htable hk uuid
    next hid =>
      split_ifs with hfull
      · exact hkept
      have hle := hkept.bounded limiterId t limiter htable hlimiter (not_not.mp htype)
      obtain ⟨hnew, hlookup⟩ := hkept.newLock htable hlimiter hid (by omega)
      exact hnew.handOut htable hlookup uuid

def orderly (s : Service ι) : Step ι → Bool
  | .update limiter row _ =>
    row.lockType ≠ .manager || (s.table limiter).all fun locks => Dict.size locks ≤ row.count.toNat
  | .drop => s.dropping.all fun limiter => (s.liveIds limiter).isEmpty
  | .evicted i => (s.callbacks[i]?.bind fun k => s.locks[k]?.map fun lock =>
      (s.tableAt lock.table).lookup lock.id).all fun found => found = none ∨ found = s.callbacks[i]?
  | _ => true

theorem mem_liveIds : id ∈ s.liveIds l ↔ ∃ (k : ℕ) (lock : Lock ι), s.locks[k]? = some lock ∧ lock.limiter = l ∧
      lock.live s.now = true ∧ lock.id = id := by
  simp only [liveIds, mem_dedup, List.mem_map, mem_filter, Bool.and_eq_true, decide_eq_true_iff]
  constructor
  · rintro ⟨lock, ⟨hmem, hl, hon⟩, rfl⟩
    obtain ⟨k, hk⟩ := mem_iff_getElem?.mp hmem
    exact ⟨k, lock, hk, hl, hon, rfl⟩
  · rintro ⟨k, lock, hk, hl, hon, rfl⟩
    exact ⟨lock, ⟨mem_of_getElem? hk, hl, hon⟩, rfl⟩

theorem Kept.step (h : s.Kept) {a : Step ι} (horderly : s.orderly a = true) (ha : s.step a = some s') :
    s'.Kept := by
  cases a with
  | acquire limiter id uuid =>
    cases ha
    exact h.acquireLock limiter id uuid
  | refresh limiter id handle =>
    cases ha
    exact h.refreshLock limiter id handle
  | release limiter id handle =>
    cases ha
    exact h.releaseLock limiter id handle
  | released i =>
    obtain ⟨call, -, ha⟩ := bind_eq_some_iff.mp ha
    have hkept : ({ s with deletes := s.deletes.eraseIdx i } : Service ι).Kept := { h with }
    exact hkept.evict ha
  | collect k => exact h.evict ha
  | evicted i =>
    obtain ⟨k, hk, lock, hlock, rfl⟩ := bind_map_eq_some ha
    have hkept : ({ s with callbacks := s.callbacks.eraseIdx i } : Service ι).Kept := { h with }
    apply hkept.onEvicted hlock
    intro j hj
    change (s.tableAt lock.table).lookup lock.id = some j at hj
    simp only [orderly, hk, bind_some, hlock, map_some, all_some, decide_eq_true_iff, hj, some.injEq] at horderly
    exact horderly.resolve_left nofun
  | tick n =>
    cases ha
    exact h.tick n
  | update limiter row nodes =>
    obtain ⟨-, ha⟩ := ite_none_left_eq_some.mp ha
    cases ha
    refine { h with bounded := ?_ }
    intro l t row' hl hrow htype
    rcases eq_or_ne l limiter with rfl | hne
    · obtain rfl : row = row' := by simpa using hrow
      have hmap : s.limiterLocks l = some t := hl
      rw [orderly, table, hmap, map_some, all_some, htype] at horderly
      have hle : size (s.tableAt t) ≤ row.count.toNat := by simpa using horderly
      exact hle
    · exact h.bounded l t row' hl (by simpa [hne] using hrow) htype
  | drop =>
    obtain ⟨limiter, hlimiter, rfl⟩ := map_eq_some_iff.mp ha
    rw [orderly, hlimiter, all_some, List.isEmpty_iff] at horderly
    have hcases : ∀ l t, update s.limiterLocks limiter none l = some t → s.limiterLocks l = some t := by
      intro l t ht
      obtain ⟨-, ⟨⟩⟩ | ⟨-, ht⟩ := update_eq_some ht
      exact ht
    refine ⟨fun l t hl => h.made l t (hcases l t hl), fun a b t ha hb => h.own a b t (hcases a t ha) (hcases b t hb),
      fun l t id k hl hk => h.entry l t id k (hcases l t hl) hk, fun k lock hk hon => ?_,
      fun l t row hl => h.bounded l t row (hcases l t hl)⟩
    obtain ⟨hl, ht⟩ := h.tracked k lock hk hon
    refine ⟨(update_of_ne ?_ _ _).trans hl, ht⟩
    rintro hsame
    have : lock.id ∈ s.liveIds limiter := mem_liveIds.mpr ⟨k, lock, hk, hsame, hon, rfl⟩
    rw [horderly] at this
    cases this

theorem Kept.liveIds_lt (h : s.Kept) {t : ℕ} (hl : s.limiterLocks l = some t) (hid : id ∉ s.liveIds l) :
    (s.liveIds l).length + (if ((s.tableAt t).lookup id).isSome then 1 else 0) ≤ size (s.tableAt t) := by
  have hsub : ∀ id' ∈ s.liveIds l, id' ∈ (s.tableAt t).keys := by
    intro id' hid'
    obtain ⟨k, lock, hk, rfl, hon, rfl⟩ := mem_liveIds.mp hid'
    obtain ⟨ht, hlookup⟩ := h.tracked k lock hk hon
    cases hl.symm.trans ht
    exact mem_keys.mp (lookup_isSome.mp (by rw [hlookup]; rfl))
  have hsize : (s.tableAt t).keys.length = size (s.tableAt t) := length_map _
  have hnodup : (s.liveIds l).Nodup := nodup_dedup _
  split_ifs with hsome
  · have hmem : id ∈ (s.tableAt t).keys := mem_keys.mp (lookup_isSome.mp hsome)
    have hle := (subperm_of_subset (nodup_cons.mpr ⟨hid, hnodup⟩) (cons_subset.mpr ⟨hmem, hsub⟩)).length_le
    rw [length_cons, hsize] at hle
    exact hle
  · have hle := (subperm_of_subset hnodup hsub).length_le
    rw [hsize] at hle
    exact hle

theorem acquireLock_within_count {limiters : ℤ → Option ConnectionLimiter} {acts : List (Step ι)} {s : Service ι}
    (h : Run step (orderly · ·) (start limiters) acts s) {limiterId : ℤ} {id : ι} {uuid : Bool} {handle : ℕ}
    (hacquired : (s.acquireLock limiterId id uuid).2 = .ok handle) (hid : id ∉ s.liveIds limiterId) :
    ∃ limiter, s.limiters limiterId = some limiter ∧ (s.liveIds limiterId).length < limiter.count.toNat := by
  have hkept : s.Kept := h.invariant (fun ht => ht.step) ⟨nofun, nofun, nofun, nofun, nofun⟩
  unfold acquireLock at hacquired
  split at hacquired
  · cases hacquired
  next limiter hlimiter =>
    refine ⟨limiter, hlimiter, ?_⟩
    split_ifs at hacquired with htype
    obtain ⟨hkept', htable, hrows, hlive⟩ := hkept.ensureTable limiterId
    rcases hens : s.ensureTable limiterId with ⟨s', t⟩
    simp only [hens] at hkept' htable hrows hlive hacquired
    rw [← hrows] at hlimiter
    rw [← hlive] at hid ⊢
    have hle := hkept'.bounded limiterId t limiter htable hlimiter (not_not.mp htype)
    have hlt := hkept'.liveIds_lt htable hid
    split at hacquired
    next k hk =>
      rw [hk, Option.isSome_some, if_pos rfl] at hlt
      omega
    next hnone =>
      split_ifs at hacquired with hfull
      omega

end Service

namespace Service

def single : ℤ → Option ConnectionLimiter := fun _ => some ⟨1, .manager⟩

theorem acquireLock_within_count_raised :
    ∃ s, Run step (orderly · ·) (start single) [.acquire 1 "a" true, .update 1 ⟨2, .manager⟩ true, .refresh 1 "a" 0] s ∧
      (s.acquireLock 1 "b" true).2 = .ok 1 ∧ "b" ∉ s.liveIds 1 ∧
      ∃ limiter, s.limiters 1 = some limiter ∧ (s.liveIds 1).length < limiter.count.toNat := by
  refine (Run.exists_of_decideWhile (P := fun s => (s.acquireLock 1 "b" true).2 = .ok 1 ∧ "b" ∉ s.liveIds 1) ?_).imp
    fun s ⟨hrun, hs⟩ => ⟨hrun, hs.1, hs.2, acquireLock_within_count hrun hs.1 hs.2⟩
  decide +kernel

def lowered : List (Step String) :=
  [.update 1 ⟨2, .manager⟩ true, .acquire 1 "a" true, .acquire 1 "b" true, .update 1 ⟨1, .manager⟩ true]

def evictedTwice : List (Step String) :=
  [.acquire 1 "a" true, .acquire 1 "a" true, .tick (lifetime + 1), .collect 0, .evicted 0, .acquire 1 "a" true, .evicted 0]

def retyped : List (Step String) := [.acquire 1 "a" true, .update 1 ⟨1, .default⟩ true, .drop, .update 1 ⟨1, .manager⟩ true]

def AdmitsOver (acts : List (Step String)) : Prop :=
  ∃ s, Run step anyStep (start single) acts s ∧ (∃ handle, (s.acquireLock 1 "c" true).2 = .ok handle) ∧
    "c" ∉ s.liveIds 1 ∧ ∃ limiter, s.limiters 1 = some limiter ∧ limiter.count.toNat ≤ (s.liveIds 1).length

theorem admitsOver_of_exec {acts : List (Step String)}
    (hexec : (exec step (start single) acts).any (fun s => (s.acquireLock 1 "c" true).2 = .ok s.handles ∧
      "c" ∉ s.liveIds 1 ∧ (s.limiters 1).any fun limiter => limiter.count.toNat ≤ (s.liveIds 1).length) = true) :
    AdmitsOver acts := by
  obtain ⟨s, hrun, hacquired, hid, hover⟩ := Run.exists_of_decide hexec
  obtain ⟨limiter, hlimiter, hle⟩ := (Option.any_eq_true _ _).mp hover
  exact ⟨s, hrun, ⟨_, hacquired⟩, hid, limiter, hlimiter, of_decide_eq_true hle⟩

theorem acquireLock_over_count : AdmitsOver lowered ∧ AdmitsOver evictedTwice ∧ AdmitsOver retyped := by
  refine ⟨?_, ?_, ?_⟩
  all_goals exact admitsOver_of_exec (by decide +kernel)

end Service

end Hydracore.Manager
