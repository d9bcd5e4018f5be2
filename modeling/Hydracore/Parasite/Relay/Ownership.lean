import Hydracore.Parasite.Relay.Moves

namespace Hydracore.Parasite.Relay

open Systems List Option State Relay.Task Shared Pc

variable {n : ℕ} {s s' : State} {a : Action}

def Task.owns (id : UInt16) (t : Task) : Bool := t.id = id && t.pc.live

def Pc.lists (p : ℕ) (pc : Pc) : Bool := pc.listed = some p

def Task.lists (p : ℕ) (t : Task) : Bool := t.pc.lists p

def State.owners (s : State) (id : UInt16) : ℕ := s.tasks.countP (Task.owns id)

def Named (s : Shared) (t : Task) : Prop :=
  (∀ p, t.pc.listed = some p → ∃ path, s.heap[p]? = some path ∧ path.id = t.id) ∧
    ∀ p ctx, t.pc.offered = some (p, ctx) → ∃ path, s.heap[p]? = some path ∧ path.id = t.id ∧ path.ctx = ctx

structure Owned (n : ℕ) (s : State) : Prop where
  bounded : s.launched ≤ n
  -- a worker that `Start` has not launched yet counts as owned by it
  single : ∀ id : UInt16, s.owners id + (if s.launched ≤ id.toNat then 1 else 0) ≤ 1
  listed : ∀ p, s.shared.paths.count p ≤ s.tasks.countP (Task.lists p)
  named : ∀ t ∈ s.tasks, Named s.shared t
  ordered : s.shared.cancelled = true ∨ s.closing ≠ .waiting → s.shared.closed = true
  kept : s.shared.closed = false → s.shared.parentDone = false → ∀ id : UInt16, id.toNat < s.launched →
    s.owners id = 0 → id ∈ s.shared.terminated

theorem owned_initial (n : ℕ) : Owned n .initial where
  bounded := Nat.zero_le n
  single := by intro id; simp [initial, owners]
  listed := by intro p; exact Nat.le_refl 0
  named := by intro t ht; cases ht
  ordered := by rintro (h | h) <;> simp [initial] at h
  kept := by intro _ _ id hid; cases hid

variable {t : Task}

theorem Named.mono {s s' : Shared} (h : Named s t) (hg : Grows s s') : Named s' t := by
  constructor
  · intro p hp
    obtain ⟨path, hpath, hid⟩ := h.1 p hp
    obtain ⟨path', hpath', hid', -⟩ := hg.kept p path hpath
    exact ⟨path', hpath', hid'.trans hid⟩
  · intro p ctx hp
    obtain ⟨path, hpath, hid, hctx⟩ := h.2 p ctx hp
    obtain ⟨path', hpath', hid', hctx', -⟩ := hg.kept p path hpath
    exact ⟨path', hpath', hid'.trans hid, hctx'.trans hctx⟩

theorem named_of_none {s : Shared} (hl : t.pc.listed = none) (ho : t.pc.offered = none) : Named s t := by
  constructor
  · intro p hp
    rw [hl] at hp
    cases hp
  · intro p ctx hp
    rw [ho] at hp
    cases hp

variable {spawned : Option Pc} {id : UInt16} {pc pc' : Pc}

section

variable {s s' : Shared} (h : Proceeded s id pc s' pc' spawned)
include h

theorem Proceeded.named (hn : Named s ⟨id, pc⟩) :
    Named s' ⟨id, pc'⟩ ∧ ∀ q, spawned = some q → Named s' ⟨id, q⟩ := by
  have hg := h.grows
  -- a goroutine that goes on with the same path in the pool
  have hsame {s'} {q : Pc} (hg : Grows s s') (hl : q.listed = pc.listed) (ho : q.offered = none) :
      Named s' ⟨id, q⟩ := by
    refine ⟨fun p hp => ?_, fun p ctx hp => ?_⟩
    · exact (hn.mono hg).1 p (hl.symm.trans hp)
    · rw [show q.offered = some (p, ctx) from hp] at ho
      cases ho
  cases h with
  | walked live listed offered => exact ⟨hsame hg listed offered, fun q hq => by cases hq⟩
  | @opened pc' ctx src live listed offered =>
    refine ⟨⟨fun p hp => ?_, fun p ctx' hp => ?_⟩, fun q hq => by cases hq⟩
    · rw [show pc'.listed = some p from hp] at listed
      cases listed
    · cases offered.symm.trans hp
      exact ⟨_, getElem?_concat_length, rfl, rfl⟩
  | terminated | quit | rejected | removed => exact ⟨named_of_none rfl rfl, fun q hq => by cases hq⟩
  | handed live listed offered =>
    refine ⟨named_of_none rfl rfl, fun q hq => ?_⟩
    cases hq
    exact hsame hg listed offered
  | @admitted p ctx src offered =>
    obtain ⟨path, hpath, hid, -⟩ := (hn.mono hg).2 p ctx offered
    refine ⟨⟨fun q hq => ?_, fun q ctx hq => by cases hq⟩, fun q hq => by cases hq⟩
    cases hq
    exact ⟨path, hpath, hid⟩
  | rejectedFirst =>
    refine ⟨named_of_none rfl rfl, fun q hq => ?_⟩
    cases hq
    exact named_of_none rfl rfl

theorem Proceeded.owner :
    (if pc'.live then 1 else 0) + (if spawned.any live then 1 else 0) = 1 ∨
      ((if pc'.live then 1 else 0) + (if spawned.any live then 1 else 0) = 0 ∧
        (id ∈ s'.terminated ∨ s.closed = true ∨ s.ctxDone = true)) := by
  cases h with
  | walked live | opened src live => exact .inl (by rw [live]; rfl)
  | handed live => exact .inl (by rw [any_some, live]; rfl)
  | terminated => exact .inr ⟨rfl, .inl (mem_cons_self ..)⟩
  | quit src finished => exact .inr ⟨rfl, .inr finished⟩
  | admitted | rejected | rejectedFirst | removed => exact .inl rfl

theorem Proceeded.paths (p : ℕ) :
    s'.paths.count p = 0 ∨ s'.paths.count p + (if pc.lists p then 1 else 0) ≤
      s.paths.count p + (if pc'.lists p then 1 else 0) + (if spawned.any (Pc.lists p) then 1 else 0) := by
  have hnone (hl : pc.listed = none) : pc.lists p = false := by simp [Pc.lists, hl]
  cases h with
  | walked live listed | handed live listed => exact .inr (by simp [Pc.lists, listed])
  | opened src live listed => exact .inr (by simp [hnone src, Shared.opened])
  | terminated src => exact .inr (by simp [hnone src, Shared.failed])
  | quit src => exact .inr (by simp [hnone src])
  | @admitted q ctx src =>
    right
    rw [hnone src, appendPath, count_append, count_singleton]
    simp [Pc.lists, Pc.listed]
  | rejected src => exact .inr (by simp [hnone src, Shared.closeConn])
  | rejectedFirst src => exact .inr (by simp [hnone src, closeConn, Nat.add_assoc])
  | @removed q src =>
    by_cases hq : q = p
    · subst q
      by_cases hzero : s.paths.count p = 0
      · exact .inl (by rw [Shared.removePath, count_erase_self]; omega)
      · right
        rw [Shared.removePath, count_erase_self, Pc.lists, src, if_pos (decide_eq_true rfl)]
        omega
    · right
      rw [removePath, count_erase_of_ne (Ne.symm hq)]
      simp [Pc.lists, src, hq]

end

theorem owners_task (shared : Shared) (pc : Pc) (spawned : Option Pc) {i : ℕ}
    (get : s.tasks[i]? = some t) (live : t.pc.live = true) (id : UInt16) : owners { s with
      shared := shared, tasks := s.tasks.set i { t with pc := pc } ++ (spawned.map (mk t.id)).toList } id +
        (if t.id = id then 1 else 0) =
      s.owners id + if t.id = id then (if pc.live then 1 else 0) + (if spawned.any Pc.live then 1 else 0) else 0 := by
  have h := countP_set_spawn (p := owns id) (b := { t with pc := pc }) (o := spawned.map (mk t.id)) get
  rw [Option.any_map] at h
  by_cases hid : t.id = id
  · simpa [owners, owns, hid, live, Function.comp_def, Nat.add_assoc] using h
  · simpa [owners, owns, hid, Function.comp_def] using h

theorem lists_task (pc : Pc) (spawned : Option Pc) {i : ℕ} (get : s.tasks[i]? = some t) (p : ℕ) :
    (s.tasks.set i { t with pc := pc } ++ (spawned.map (Task.mk t.id)).toList).countP (Task.lists p) +
        (if t.pc.lists p then 1 else 0) =
      s.tasks.countP (Task.lists p) + (if pc.lists p then 1 else 0) +
        (if spawned.any (Pc.lists p) then 1 else 0) := by
  have h := countP_set_spawn (p := Task.lists p) (b := { t with pc := pc }) (o := spawned.map (Task.mk t.id)) get
  rw [Option.any_map] at h
  exact h

theorem Stepped.named (hn : ∀ t ∈ s.tasks, Named s.shared t) (hs : Stepped n s a s') (t : Task)
    (ht : t ∈ s'.tasks) : Named s'.shared t := by
  have hg := hs.grows
  have hold (ht : t ∈ s.tasks) : Named s'.shared t := (hn t ht).mono hg
  cases hs with
  | launched =>
    rcases mem_concat_cases ht with ht | rfl
    · exact hold ht
    · exact named_of_none rfl rfl
  | @task i b t₀ shared pc spawned get live by_ =>
    obtain ⟨hpc, hspawn⟩ := by_.named (hn t₀ (mem_of_getElem? get))
    rcases mem_append.mp ht with ht | ht
    · rcases mem_or_eq_of_mem_set ht with ht | rfl
      · exact hold ht
      · exact hpc
    · obtain ⟨q, hq, rfl⟩ := map_eq_some_iff.mp (mem_toList.mp ht)
      exact hspawn q hq
  | _ => exact hold ht

theorem Proceeded.cancelled {s s' : Shared}
    (h : Proceeded s id pc s' pc' spawned) : s'.cancelled = s.cancelled := by
  cases h <;> rfl

section

variable (ho : Owned n s) (hs : Stepped n s a s')
include ho hs

theorem Stepped.single (hn : n ≤ 65536) (id : UInt16) :
    s'.owners id + (if s'.launched ≤ id.toNat then 1 else 0) ≤ 1 := by
  have hold := ho.single id
  cases hs with
  | launched more =>
    have hto : (UInt16.ofNat s.launched).toNat = s.launched := by
      rw [UInt16.toNat_ofNat', Nat.mod_eq_of_lt (by omega)]
    simp only [owners, countP_append, countP_singleton, owns, live, Bool.and_true, decide_eq_true_eq] at hold ⊢
    by_cases hid : UInt16.ofNat s.launched = id
    · rw [← hid, hto] at hold ⊢
      simp only [Nat.le_refl, if_true] at hold ⊢
      rw [if_neg (by omega)]
      omega
    · split_ifs at hold ⊢ <;> omega
  | @task i b t shared pc spawned get live by_ =>
    have htask := owners_task shared pc spawned get live id
    rcases by_.owner with hone | ⟨hzero, -⟩
    · rw [hone] at htask
      split_ifs at htask hold ⊢ <;> omega
    · rw [hzero] at htask
      split_ifs at htask hold ⊢ <;> omega
  | _ => exact hold

theorem Stepped.listed (p : ℕ) :
    s'.shared.paths.count p ≤ s'.tasks.countP (Task.lists p) := by
  have hold := ho.listed p
  cases hs with
  | launched =>
    rw [countP_append]
    exact Nat.le_add_right_of_le hold
  | @task i b t shared pc spawned get live by_ =>
    have htask := lists_task pc spawned get p
    rcases by_.paths p with hzero | hle
    · rw [hzero]
      exact Nat.zero_le _
    · simp only at hold ⊢
      omega
  | rebindStep get by_ => rwa [by_.keeps.1]
  | close result =>
    rcases close_paths result with hsame | hnil
    · rwa [hsame]
    · rw [hnil]
      exact Nat.zero_le _
  | _ => exact hold

theorem Stepped.ordered (hc : s'.shared.cancelled = true ∨ s'.closing ≠ .waiting) : s'.shared.closed = true := by
  have hg := hs.grows
  have hold (h : s.shared.cancelled = true ∨ s.closing ≠ .waiting) : s'.shared.closed = true :=
    hg.closed (ho.ordered h)
  cases hs with
  | task get live by_ => exact hold (by rwa [by_.cancelled] at hc)
  | rebindStep get by_ => exact hold (by rwa [by_.keeps.2] at hc)
  | close result =>
    cases hpc : s.closing with
    | waiting =>
      rw [hpc] at result
      cases result
      rfl
    | stored | cancelled | finished => exact hold (.inr (by rw [hpc]; simp))
  | _ => exact hold hc

theorem Stepped.kept (hclosed : s'.shared.closed = false) (hparent : s'.shared.parentDone = false) (id : UInt16)
    (hid : id.toNat < s'.launched) (hnone : s'.owners id = 0) : id ∈ s'.shared.terminated := by
  have hg := hs.grows
  have hclosed' : s.shared.closed = false := by
    by_contra h
    rw [hg.closed (by simpa using h)] at hclosed
    cases hclosed
  have hparent' : s.shared.parentDone = false := by
    by_contra h
    rw [hg.parentDone (by simpa using h)] at hparent
    cases hparent
  have hcancelled : s.shared.cancelled = false := by
    by_contra h
    rw [ho.ordered (.inl (by simpa using h))] at hclosed'
    cases hclosed'
  have hold (hid : id.toNat < s.launched) (hnone : s.owners id = 0) : id ∈ s'.shared.terminated :=
    hg.terminated id (ho.kept hclosed' hparent' id hid hnone)
  cases hs with
  | launched more =>
    simp only [owners, countP_append, countP_singleton, owns, live, Bool.and_true,
      decide_eq_true_eq, Nat.add_eq_zero_iff] at hnone
    refine hold ?_ hnone.1
    have hne : id.toNat ≠ s.launched := by
      intro he
      have hof : UInt16.ofNat s.launched = id := by rw [← he, UInt16.ofNat_toNat]
      simp [hof] at hnone
    exact Nat.lt_of_le_of_ne (Nat.lt_succ_iff.mp hid) hne
  | @task i b t shared pc spawned get live by_ =>
    have htask := owners_task shared pc spawned get live id
    rcases by_.owner with hone | ⟨hzero, hwhy⟩
    · rw [hone] at htask
      exact hold hid (by split_ifs at htask <;> omega)
    · by_cases hmine : t.id = id
      · rcases hwhy with hterm | hc | hc
        · exact hmine ▸ hterm
        · rw [hclosed'] at hc
          cases hc
        · rw [ctxDone, hcancelled, hparent'] at hc
          cases hc
      · simp only [if_neg hmine] at htask
        exact hold hid (by omega)
  | _ => exact hold hid hnone

theorem Stepped.bounded : s'.launched ≤ n := by
  cases hs with
  | launched more => exact more
  | _ => exact ho.bounded

theorem Stepped.owned (hn : n ≤ 65536) : Owned n s' where
  bounded := hs.bounded ho
  single := hs.single ho hn
  listed := hs.listed ho
  named := hs.named ho.named
  ordered := hs.ordered ho
  kept := hs.kept ho

end

theorem owned_run (hn : n ≤ 65536) {as : List Action} (h : Run (step n) anyStep .initial as s) : Owned n s :=
  h.invariant (fun hp _ ht => (step_cases ht).owned hp hn) (owned_initial n)

theorem Task.owns_of_listed {p : ℕ} (h : t.pc.listed = some p) : t.owns t.id = true := by
  cases hpc : t.pc <;> simp_all [owns, listed, live]

def State.workers (s : State) : List (Option UInt16) :=
  s.shared.paths.map fun p => (s.shared.heap[p]?).map Path.id

section

variable (ho : Owned n s)
include ho

theorem Owned.lister {p : ℕ} (hp : p ∈ s.shared.paths) :
    ∃ t ∈ s.tasks, t.pc.listed = some p ∧ (s.shared.heap[p]?).map Path.id = some t.id := by
  have hpos : 0 < s.tasks.countP (Task.lists p) := (count_pos_iff.mpr hp).trans_le (ho.listed p)
  obtain ⟨t, ht, hl⟩ := countP_pos_iff.mp hpos
  have hlisted : t.pc.listed = some p := of_decide_eq_true hl
  obtain ⟨path, hpath, hid⟩ := (ho.named t ht).1 p hlisted
  exact ⟨t, ht, hlisted, by rw [hpath, map_some, hid]⟩

theorem Owned.owners_le_one (id : UInt16) : s.owners id ≤ 1 :=
  (Nat.le_add_right _ _).trans (ho.single id)

theorem Owned.lt_of_owned (ht : t ∈ s.tasks) (hown : t.owns t.id = true) : t.id.toNat < n := by
  have hpos : 0 < s.owners t.id := countP_pos_iff.mpr ⟨t, ht, hown⟩
  have hone := ho.single t.id
  have := ho.bounded
  split_ifs at hone <;> omega

theorem Owned.paths_nodup : s.shared.paths.Nodup := by
  rw [nodup_iff_count_le_one]
  intro p
  by_cases hp : p ∈ s.shared.paths
  · obtain ⟨t, ht, -, hid⟩ := ho.lister hp
    refine (ho.listed p).trans ((countP_mono_left ?_).trans (ho.owners_le_one t.id))
    intro u hu hl
    have hlisted : u.pc.listed = some p := of_decide_eq_true hl
    obtain ⟨path, hpath, hid'⟩ := (ho.named u hu).1 p hlisted
    rw [hpath, map_some, hid'] at hid
    exact some.inj hid ▸ owns_of_listed hlisted
  · rw [count_eq_zero_of_not_mem hp]
    exact Nat.zero_le 1

theorem Owned.workers_nodup : s.workers.Nodup := by
  refine Nodup.map_on ?_ ho.paths_nodup
  intro p hp q hq hsame
  obtain ⟨t, ht, hlt, hidt⟩ := ho.lister hp
  obtain ⟨u, hu, hlu, hidu⟩ := ho.lister hq
  have hid : t.id = u.id := some.inj (hidt.symm.trans (hsame.trans hidu))
  have htu := eq_of_countP_le_one (ho.owners_le_one t.id) ht hu (owns_of_listed hlt)
    (by rw [hid]; exact owns_of_listed hlu)
  rw [htu, hlu] at hlt
  exact (some.inj hlt).symm

theorem Owned.activePaths_le : s.shared.activePaths ≤ n := by
  have hsub : s.workers ⊆ (range n).map fun i => some (UInt16.ofNat i) := by
    intro w hw
    obtain ⟨p, hp, rfl⟩ := List.mem_map.mp hw
    obtain ⟨t, ht, hl, hid⟩ := ho.lister hp
    refine List.mem_map.mpr ⟨t.id.toNat, mem_range.mpr (ho.lt_of_owned ht (owns_of_listed hl)), ?_⟩
    rw [UInt16.ofNat_toNat, hid]
  have hle := (ho.workers_nodup.subperm hsub).length_le
  simpa [workers, activePaths] using hle

end

theorem lane_ownership (n : ℕ) (hn : n ≤ 65536) (as : List Action) (s : State)
    (h : Run (step n) anyStep .initial as s) :
    (∀ id, s.owners id ≤ 1) ∧ s.workers.Nodup ∧ s.shared.activePaths ≤ n ∧
      (s.shared.closed = false → s.shared.parentDone = false → ∀ id : UInt16, id.toNat < s.launched →
        s.owners id = 0 → id ∈ s.shared.terminated) := by
  have ho := owned_run hn h
  exact ⟨ho.owners_le_one, ho.workers_nodup, ho.activePaths_le, ho.kept⟩

def reboundLane : List Action :=
  [.launch, .launch, .task 0 .go, .task 1 .go, .task 0 .go, .task 1 .go, .task 0 .dialed,
    .task 1 (.dialFailed true), .task 0 .go, .task 0 .go, .rebind 1, .rebindStep 0, .rebindStep 0, .rebindStep 0,
    .rebindStep 0, .task 2 .go, .task 2 .go, .task 2 .go, .rebindStep 0]

theorem lane_ownership_rebound : ∃ s, exec (step 2) .initial reboundLane = some s ∧ s.owners 0 = 1 ∧
    s.owners 1 = 0 ∧ (1 : UInt16) ∈ s.shared.terminated ∧ s.shared.activePaths ≤ 2 := by
  refine (exists_some_of_decide (P := fun s => s.owners 0 = 1 ∧ s.owners 1 = 0 ∧ s.launched = 2 ∧
    s.shared.closed = false ∧ s.shared.parentDone = false) ?_).imp
    fun s ⟨hs, hzero, hone, hlaunched, hclosed, hparent⟩ => ⟨hs, hzero, hone, ?_⟩
  · decide +kernel
  · obtain ⟨-, -, hactive, hkept⟩ := lane_ownership 2 (by decide) reboundLane s (.of_exec hs)
    exact ⟨hkept hclosed hparent 1 (by rw [hlaunched]; decide) hone, hactive⟩

theorem paths_watched (n : ℕ) (hn : n ≤ 65536) (as : List Action) (s : State)
    (h : Run (step n) anyStep .initial as s) : s.shared.paths.Nodup ∧ ∀ p ∈ s.shared.paths,
      ∃ t ∈ s.tasks, t.pc.listed = some p ∧ (s.shared.heap[p]?).map Path.id = some t.id := by
  have ho := owned_run hn h
  exact ⟨ho.workers_nodup.of_map, fun p hp => ho.lister hp⟩

theorem paths_watched_rebound : ∃ s, exec (step 2) .initial (reboundLane.take 10) = some s ∧ s.shared.paths = [0] ∧
    s.shared.paths.Nodup ∧ ∀ p ∈ s.shared.paths, ∃ t ∈ s.tasks, t.pc.listed = some p ∧
      (s.shared.heap[p]?).map Path.id = some t.id := by
  refine (exists_some_of_decide ?_).imp fun s ⟨hs, hone⟩ =>
    ⟨hs, hone, paths_watched 2 (by decide) _ s (.of_exec hs)⟩
  decide +kernel

end Hydracore.Parasite.Relay
