import Hydracore.Bond.Places

namespace Hydracore.Bond

open Formats Systems List Option

variable {α : Type}

def Job.weight : Job α → ℕ
  | connHandler _ => 6
  | onEvicted _ _ => 0

def Task.weight : Task α → ℕ
  | ready job => job.weight + 4
  | locking job => job.weight + 3
  | locked job => job.weight + 2
  | fetched _ _ => 2
  | releasing _ _ => 1
  | returned _ | panicked _ => 0

def Status.weight : Status → ℕ
  | cached => 5
  | expired | evicted => 0

def Step.arrives : Step → Bool
  | accept _ => true
  | _ => false

namespace Inbound

variable {serializer : AddressSerializer α} {h h' : Inbound α} {i : ℕ} {task next : Task α}

def weight (h : Inbound α) : ℕ := total Task.weight h.tasks + total (fun s => s.status.weight) h.sets

theorem total_store {set : ℕ} {s : ConnSet} (hs : h.sets[set]? = some s) (after : RatioConns) :
    total (fun s => s.status.weight) (h.sets.set set { s with ratioConns := after }) =
      total (fun s => s.status.weight) h.sets := by
  have hset := total_set (f := fun s => s.status.weight) hs { s with ratioConns := after }
  exact Nat.add_right_cancel hset

theorem weight_advance (hmove : h.advance i task = some (h', next)) :
    next.weight + total (fun s => s.status.weight) h'.sets < task.weight + total (fun s => s.status.weight) h.sets := by
  cases task with
  | ready job =>
    cases hmove
    apply Nat.add_lt_add_right
    split_ifs <;> simp [Task.weight]
  | locking job | releasing key result =>
    obtain ⟨km, _, heq⟩ := map_eq_some_iff.mp hmove
    cases heq
    simp [Task.weight]
  | locked job =>
    cases job with
    | connHandler request =>
      have hfetch := some.inj hmove
      cases hcache : h.cache request.uuid <;> simp only [fetch, hcache] at hfetch <;>
        obtain ⟨rfl, rfl⟩ := Prod.mk.inj hfetch <;>
        simp only [Task.weight, Job.weight, total_append, total, Status.weight] <;> omega
    | onEvicted key set =>
      obtain ⟨s, hs, heq⟩ := map_eq_some_iff.mp hmove
      cases heq
      have hset := total_set (f := fun s => s.status.weight) hs { s with status := .evicted }
      simp only [Task.weight, Status.weight] at hset ⊢
      omega
  | fetched request set =>
    obtain ⟨s, hs, hstore⟩ := map_eq_some_iff.mp hmove
    cases hcollect : collect s.ratioConns i request <;> simp only [store, hcollect] at hstore <;>
      obtain ⟨rfl, rfl⟩ := Prod.mk.inj hstore <;> simp only [Task.weight, total_store hs] <;> omega
  | returned result | panicked key => cases hmove

theorem Kept.weight_step (hk : Kept h) {a : Step} (hmet : h.proper a = true ∧ a.arrives = false)
    (hstep : h.step serializer a = some h') : h'.weight < h.weight := by
  cases a with
  | accept stream => cases hmet.2
  | advance i =>
    obtain ⟨task, htask, ⟨moved, next⟩, hmove, rfl⟩ := bind_map_eq_some hstep
    have hlt := weight_advance hmove
    have htasks : moved.tasks = h.tasks := by
      refine (moved_of_advance hmove ?_).1.tasks_eq
      rintro request set rfl s hs
      simpa [proper, htask, hs] using hmet.1
    have hset := total_set (f := Task.weight) htask next
    simp only [weight, htasks]
    omega
  | expire key =>
    obtain ⟨set, hcache, s, hs, rfl⟩ := bind_map_eq_some hstep
    have hlabel := (hk.filed key set).mp hcache
    simp only [labels, getElem?_map, hs, map_some, some.injEq, Prod.mk.injEq] at hlabel
    have hset := total_set (f := fun s => s.status.weight) hs { s with status := .expired }
    simp only [hlabel.2, Status.weight, weight, total_append, total, Task.weight, Job.weight] at hset ⊢
    omega

theorem Kept.advance_of_held (hk : Kept h) (htask : h.tasks[i]? = some task) {key : UUID}
    (hheld : task.held = some key) : (h.advance i task).isSome = true := by
  have hmem := mem_of_getElem? htask
  cases task with
  | ready job | locking job | returned result => cases hheld
  | locked job =>
    cases job with
    | connHandler request => rfl
    | onEvicted key set =>
      have hlabel := hk.label_of_evicts hmem rfl
      simp only [labels, getElem?_map, map_eq_some_iff] at hlabel
      obtain ⟨s, hs, _⟩ := hlabel
      simp [Inbound.advance, hs]
  | fetched request set =>
    have hlt : set < h.labels.length := by
      obtain hlabel | hlabel := hk.fetched request set hmem <;> exact getElem?_lt hlabel
    rw [labels, length_map] at hlt
    simp [Inbound.advance, hlt]
  | releasing key result =>
    have hpos : 0 < h.tasks.countP fun task => task.held = some key :=
      countP_pos_iff.mpr ⟨_, hmem, by simp [Task.held]⟩
    have hbalanced := hk.balanced key
    rw [← Nat.sub_add_cancel hpos] at hbalanced
    simpa [Inbound.advance] using hbalanced.unlock_isSome
  | panicked key => exact absurd hmem (hk.sound key)

theorem Kept.exists_advance (hk : Kept h) (htask : h.tasks[i]? = some task) (hopen : ∀ result, task ≠ .returned result) :
    ∃ j other, h.tasks[j]? = some other ∧ (h.advance j other).isSome = true := by
  have hmem := mem_of_getElem? htask
  cases task with
  | ready job => exact ⟨i, _, htask, rfl⟩
  | locking job =>
    have hpos : 0 < h.tasks.countP fun task => task.wanted = some job.key :=
      countP_pos_iff.mpr ⟨_, hmem, by simp [Task.wanted]⟩
    rcases Nat.eq_zero_or_pos (h.tasks.countP fun task => task.held = some job.key) with hfree | hheld
    · have hbalanced := hk.balanced job.key
      rw [hfree, ← Nat.sub_add_cancel hpos] at hbalanced
      exact ⟨i, _, htask, by simpa [Inbound.advance] using hbalanced.wake_isSome⟩
    · obtain ⟨holder, hholder, hheld⟩ := countP_pos_iff.mp hheld
      obtain ⟨j, hj⟩ := mem_iff_getElem?.mp hholder
      exact ⟨j, holder, hj, hk.advance_of_held hj (by simpa using hheld)⟩
  | returned result => exact absurd rfl (hopen result)
  | locked job | fetched request set | releasing key result | panicked key =>
    exact ⟨i, _, htask, hk.advance_of_held htask rfl⟩

def Settled (h : Inbound α) (conn : ℕ) : Prop :=
  (h.bondings conn = 1 ∧ conn ∉ h.closed) ∨ (h.bondings conn = 0 ∧ conn ∈ h.closed)

def Waiting (h : Inbound α) (conn : ℕ) : Prop :=
  h.bondings conn = 0 ∧ conn ∉ h.closed ∧ ∃ set s, h.sets[set]? = some s ∧ 0 < s.ratioConns.members conn ∧
    (h.cache s.key = some set ∨ ∃ task ∈ h.tasks, task.evicts = some (s.key, set))

theorem Kept.settled_or_waiting (hk : Kept h) {conn : ℕ} (hreturned : h.tasks[conn]? = some (.returned .ok)) :
    h.Settled conn ∨ h.Waiting conn := by
  have hplaces := hk.places conn
  simp only [hreturned, any_some, Task.stored, if_true, Inbound.places] at hplaces
  by_cases hwaiting : ∀ s ∈ h.sets, waiting conn s = 0
  · rw [total_eq_zero hwaiting] at hplaces
    rcases Nat.eq_zero_or_pos (h.closed.count conn) with hopen | hclosed
    · exact .inl (.inl ⟨by omega, count_eq_zero.mp hopen⟩)
    · exact .inl (.inr ⟨by omega, count_pos_iff.mp hclosed⟩)
  · push Not at hwaiting
    obtain ⟨s, hmem, hpos⟩ := hwaiting
    obtain ⟨set, hs⟩ := mem_iff_getElem?.mp hmem
    have hle := le_total (f := waiting conn) hs
    refine .inr ⟨by omega, count_eq_zero.mp (by omega), set, s, hs, ?_⟩
    have hlabel : h.labels[set]? = some (s.key, s.status) := by
      rw [labels, getElem?_map, hs, map_some]
    cases hstatus : s.status with
    | evicted => exact absurd (by simp [waiting, hstatus]) hpos
    | cached =>
      rw [hstatus] at hlabel
      refine ⟨?_, .inl ((hk.filed s.key set).mpr hlabel)⟩
      simpa [waiting, hstatus, Nat.pos_iff_ne_zero] using hpos
    | expired =>
      refine ⟨by simpa [waiting, hstatus, Nat.pos_iff_ne_zero] using hpos, .inr ?_⟩
      have hcount := hk.evictions s.key set
      rw [hlabel, hstatus, if_pos rfl] at hcount
      obtain ⟨task, htask, hevicts⟩ := countP_pos_iff.mp (hcount ▸ Nat.one_pos)
      exact ⟨task, htask, by simpa using hevicts⟩

theorem Kept.enabled (hk : Kept h) : ((∀ conn, h.tasks[conn]? = some (.returned .ok) → h.Settled conn) ∨
    ∃ a, h.proper a = false) ∨ ∃ a h', (h.proper a = true ∧ a.arrives = false) ∧ h.step serializer a = some h' := by
  by_cases himproper : ∃ a, h.proper a = false
  · exact .inl (.inr himproper)
  have hproper (a : Step) : h.proper a = true := by
    cases hmet : h.proper a with
    | true => rfl
    | false => exact absurd ⟨a, hmet⟩ himproper
  by_cases hcache : ∃ key set, h.cache key = some set
  · obtain ⟨key, set, hset⟩ := hcache
    have hlabel := (hk.filed key set).mp hset
    rw [labels, getElem?_map, map_eq_some_iff] at hlabel
    obtain ⟨s, hs, _⟩ := hlabel
    exact .inr ⟨.expire key, _, ⟨hproper _, rfl⟩, by rw [Inbound.step, hset, bind_some, hs, map_some]⟩
  by_cases hopen : ∃ (i : ℕ) (task : Task α), h.tasks[i]? = some task ∧ ∀ result, task ≠ .returned result
  · obtain ⟨i, task, htask, hopen⟩ := hopen
    obtain ⟨j, other, hother, hadvance⟩ := hk.exists_advance htask hopen
    obtain ⟨moved, hmoved⟩ := isSome_iff_exists.mp hadvance
    exact .inr ⟨.advance j, _, ⟨hproper _, rfl⟩, by rw [Inbound.step, hother, bind_some, hmoved, map_some]⟩
  refine .inl (.inl fun conn hreturned => (hk.settled_or_waiting hreturned).resolve_right ?_)
  rintro ⟨_, _, set, s, _, _, hset | ⟨task, htask, hevicts⟩⟩
  · exact hcache ⟨_, _, hset⟩
  · obtain ⟨i, hi⟩ := mem_iff_getElem?.mp htask
    refine hopen ⟨i, task, hi, ?_⟩
    rintro result rfl
    cases hevicts

theorem connections_settle {as : List Step} (hrun : Run (step serializer) (proper · ·) start as h) :
    (∀ key, .panicked key ∉ h.tasks) ∧
    (∀ conn, h.tasks[conn]? = some (.returned .ok) → h.Settled conn ∨ h.Waiting conn) ∧
    Inevitable (step serializer) (fun h a => h.proper a = true ∧ a.arrives = false)
      (fun h => (∀ conn, h.tasks[conn]? = some (.returned .ok) → h.Settled conn) ∨ ∃ a, h.proper a = false) h := by
  have hk : Kept h := hrun.invariant (fun ht => ht.step) .start
  refine ⟨hk.sound, fun conn => hk.settled_or_waiting, ?_⟩
  apply Inevitable.of_weight (I := Kept) weight
  · intro s a t hs hmet hstep
    exact hs.step hmet.1 hstep
  · intro s a t hs hmet hstep
    exact hs.weight_step hmet hstep
  · intro s hs
    exact hs.enabled
  · exact hk

def requestBytes (index count downloadRatio uploadRatio : UInt8) : Bytes :=
  version :: List.replicate 16 0 ++ [index, count, downloadRatio, uploadRatio, 0, 80, 1, 127, 0, 0, 1]

def bondSteps : List Step :=
  [Step.accept (requestBytes 1 2 40 70)] ++ List.replicate 4 (Step.advance 0) ++ [Step.accept (requestBytes 0 2 60 30)] ++
    List.replicate 4 (Step.advance 1) ++ [Step.accept (requestBytes 0 2 60 30)] ++ List.replicate 4 (Step.advance 2) ++
    [Step.expire zeroUUID] ++ List.replicate 3 (Step.advance 3)

theorem connections_settle_bond : ∃ h : Inbound IPv4AddrPort, Run (step ipv4Serializer) (proper · ·) start bondSteps h ∧
    h.tasks[0]? = some (.returned .ok) ∧ h.bondings 0 = 1 ∧ (h.Settled 0 ∨ h.Waiting 0) := by
  refine (Run.exists_of_decideWhile (P := fun h => h.tasks[0]? = some (.returned .ok) ∧ h.bondings 0 = 1) ?_).imp
    fun h ⟨hrun, hreturned, hbonded⟩ => ⟨hrun, hreturned, hbonded, (connections_settle hrun).2.1 0 hreturned⟩
  decide +kernel

def outsideSteps : List Step := [.accept (requestBytes 5 1 100 100)] ++ List.replicate 3 (.advance 0)

def repeatedSteps : List Step :=
  [Step.accept (requestBytes 0 2 60 30)] ++ List.replicate 4 (Step.advance 0) ++ [Step.accept (requestBytes 0 2 60 30)] ++
    List.replicate 4 (Step.advance 1) ++ [Step.expire zeroUUID] ++ List.replicate 3 (Step.advance 2)

theorem connection_lost :
    (∃ h : Inbound IPv4AddrPort, Run (step ipv4Serializer) anyStep start outsideSteps h ∧ .panicked zeroUUID ∈ h.tasks) ∧
    ∃ h : Inbound IPv4AddrPort, Run (step ipv4Serializer) anyStep start repeatedSteps h ∧
      h.tasks = [.returned .ok, .returned .ok, .returned .evicted] ∧ h.cache zeroUUID = none ∧ ¬ h.Settled 0 := by
  refine ⟨Run.exists_of_decide ?_, (Run.exists_of_decide (P := fun h =>
    h.tasks = [.returned .ok, .returned .ok, .returned .evicted] ∧ h.cache zeroUUID = none ∧ h.bondings 0 = 0 ∧
      0 ∉ h.closed) ?_).imp fun h ⟨hrun, htasks, hcache, hbonded, hclosed⟩ => ⟨hrun, htasks, hcache, ?_⟩⟩
  · decide +kernel
  · decide +kernel
  · rintro (⟨hone, _⟩ | ⟨_, hmem⟩)
    · omega
    · exact hclosed hmem

end Inbound

end Hydracore.Bond
