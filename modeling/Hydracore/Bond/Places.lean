import Hydracore.Bond.Handshake

namespace Hydracore.Bond

open Formats Systems Common Option Function Bond.Task RatioConns
open List hiding set

variable {α : Type}

namespace Task

def held : Task α → Option UUID
  | locked job => some job.key
  | fetched request _ => some request.uuid
  | releasing key _ | panicked key => some key
  | _ => none

def wanted : Task α → Option UUID
  | locking job => some job.key
  | _ => none

def job : Task α → Option (Job α)
  | ready job | locking job | locked job => some job
  | _ => none

def evicts (task : Task α) : Option (UUID × ℕ) :=
  task.job.bind fun
    | .connHandler _ => none
    | .onEvicted key set => some (key, set)

def stored : Task α → Bool
  | releasing _ .ok | releasing _ .invalidRatios | returned .ok | returned .invalidRatios => true
  | _ => false

def quiet : Task α → Bool
  | fetched _ _ | panicked _ => false
  | _ => true

end Task

namespace Inbound

variable {serializer : AddressSerializer α} {h h' : Inbound α} {i : ℕ} {task next : Task α}

def proper (h : Inbound α) : Step → Bool
  | .advance i =>
    match h.tasks[i]? with
    | some (.fetched request set) => h.sets[set]?.all fun s => fits s.ratioConns request
    | _ => true
  | _ => true

inductive Moved (h : Inbound α) (i : ℕ) : Task α → Inbound α → Task α → Prop
  | lock {task next : Task α} (km : Kmutex UUID) (job : next.job = task.job) (stored : next.stored = task.stored)
      (quiet : next.quiet = true) : Moved h i task { h with mtx := km } next
  | fetch (request : Request α) (set : ℕ) (cached : h.cache request.uuid = some set) :
      Moved h i (.locked (.connHandler request)) h (.fetched request set)
  | create (request : Request α) (missing : h.cache request.uuid = none) :
      Moved h i (.locked (.connHandler request)) { h with
          sets := h.sets ++ [⟨request.uuid, ∅, .cached⟩]
          cache := update h.cache request.uuid (some h.sets.length) } (.fetched request h.sets.length)
  | evict (key : UUID) (set : ℕ) (s : ConnSet) (found : h.sets[set]? = some s) :
      Moved h i (.locked (.onEvicted key set))
        { h with sets := h.sets.set set { s with status := .evicted }, closed := h.closed ++ s.ratioConns.conns }
        (.releasing key .evicted)
  | store (request : Request α) (set : ℕ) (s : ConnSet) (found : h.sets[set]? = some s) (after : RatioConns)
      (bonded : List BondedConn) (closed : List ℕ) (h' : Inbound α) (next : Task α)
      (stored : next.stored = true ∧ next.quiet = true ∧ next.job = none)
      (members : ∀ conn, after.members conn + total (fun b => b.conns.count (some conn)) bonded + closed.count conn =
        s.ratioConns.members conn + if i = conn then 1 else 0)
      (moved : h' = { h with
        sets := h.sets.set set { s with ratioConns := after }
        bonded := h.bonded ++ bonded
        closed := h.closed ++ closed }) : Moved h i (.fetched request set) h' next

theorem moved_of_advance (hmove : h.advance i task = some (h', next))
    (hfits : ∀ request set, task = .fetched request set →
      ∀ s, h.sets[set]? = some s → fits s.ratioConns request = true) :
    Moved h i task h' next ∧ Kmutex.Move h.mtx h'.mtx task.held task.wanted next.held next.wanted := by
  cases task with
  | ready job =>
    cases hmove
    cases hfree : h.mtx job.key with
    | none => exact ⟨.lock _ rfl rfl rfl, .take job.key hfree rfl⟩
    | some kl => exact ⟨.lock _ rfl rfl rfl, .wait job.key (by simp [hfree]) rfl⟩
  | locking job =>
    obtain ⟨km, hkm, heq⟩ := map_eq_some_iff.mp hmove
    cases heq
    exact ⟨.lock _ rfl rfl rfl, .wake job.key hkm⟩
  | locked job =>
    cases job with
    | connHandler request =>
      have hfetch := some.inj hmove
      cases hcache : h.cache request.uuid with
      | none =>
        simp only [fetch, hcache] at hfetch
        cases hfetch
        exact ⟨.create request hcache, .stay rfl⟩
      | some set =>
        simp only [fetch, hcache] at hfetch
        cases hfetch
        exact ⟨.fetch request set hcache, .stay rfl⟩
    | onEvicted key set =>
      obtain ⟨s, hs, heq⟩ := map_eq_some_iff.mp hmove
      cases heq
      exact ⟨.evict key set s hs, .stay rfl⟩
  | fetched request set =>
    obtain ⟨s, hs, hstore⟩ := map_eq_some_iff.mp hmove
    obtain ⟨hsafe, hmembers⟩ := collect_members i (hfits request set rfl s hs)
    cases hcollect : collect s.ratioConns i request with
    | waiting after =>
      simp only [hcollect, Collected.members] at hmembers
      simp only [store, hcollect] at hstore
      cases hstore
      exact ⟨.store request set s hs after [] [] _ _ ⟨rfl, rfl, rfl⟩ (by simpa [total] using hmembers) (by simp),
        .stay rfl⟩
    | invalid conns =>
      simp only [hcollect, Collected.members] at hmembers
      simp only [store, hcollect] at hstore
      cases hstore
      exact ⟨.store request set s hs ∅ [] conns _ _ ⟨rfl, rfl, rfl⟩
        (by simpa [total, members] using hmembers) (by simp), .stay rfl⟩
    | bonded bondedConn =>
      simp only [hcollect, Collected.members] at hmembers
      simp only [store, hcollect] at hstore
      cases hstore
      exact ⟨.store request set s hs ∅ [bondedConn] [] _ _ ⟨rfl, rfl, rfl⟩
        (by simpa [total, members] using hmembers) (by simp), .stay rfl⟩
    | panicked => exact absurd hcollect hsafe
  | releasing key result =>
    obtain ⟨km, hkm, heq⟩ := map_eq_some_iff.mp hmove
    cases heq
    exact ⟨.lock _ rfl (by cases result <;> rfl) rfl, .release key hkm⟩
  | returned result | panicked key => cases hmove

def bondings (h : Inbound α) (conn : ℕ) : ℕ := total (fun b => b.conns.count (some conn)) h.bonded

def waiting (conn : ℕ) (s : ConnSet) : ℕ := if s.status = .evicted then 0 else s.ratioConns.members conn

def places (h : Inbound α) (conn : ℕ) : ℕ := h.bondings conn + total (waiting conn) h.sets + h.closed.count conn

def labels (h : Inbound α) : List (UUID × Status) := h.sets.map fun s => (s.key, s.status)

structure Kept (h : Inbound α) : Prop where
  balanced : ∀ key, h.mtx.Balanced key (h.tasks.countP fun task => task.held = some key)
    (h.tasks.countP fun task => task.wanted = some key)
  filed : ∀ key set, h.cache key = some set ↔ h.labels[set]? = some (key, .cached)
  evictions : ∀ key set, (h.tasks.countP fun task => task.evicts = some (key, set)) =
    if h.labels[set]? = some (key, .expired) then 1 else 0
  fetched : ∀ request set, .fetched request set ∈ h.tasks →
    h.labels[set]? = some (request.uuid, .cached) ∨ h.labels[set]? = some (request.uuid, .expired)
  sound : ∀ key, .panicked key ∉ h.tasks
  places : ∀ conn, h.places conn = if h.tasks[conn]?.any Task.stored then 1 else 0

theorem Kept.start : Kept (start : Inbound α) where
  balanced key := ⟨rfl, rfl⟩
  filed key set := by simp [Inbound.start, labels]
  evictions key set := rfl
  fetched := nofun
  sound := nofun
  places conn := rfl

variable {set : ℕ} {s : ConnSet}

theorem labels_store (hs : h.sets[set]? = some s) (after : RatioConns) :
    (h.sets.set set { s with ratioConns := after }).map (fun s => (s.key, s.status)) = h.labels := by
  obtain ⟨hlt, rfl⟩ := List.getElem?_eq_some_iff.mp hs
  have hself := @set_getElem_self _ h.labels set (by simpa [labels] using hlt)
  simpa [labels] using hself

inductive Relabelled (h h' : Inbound α) (task next : Task α) : Prop
  | same (labels : h'.labels = h.labels) (cache : h'.cache = h.cache) (evicts : next.evicts = task.evicts)
      (fetched : ∀ request set, next = .fetched request set → h.cache request.uuid = some set)
  | create (request : Request α) (missing : h.cache request.uuid = none)
      (labels : h'.labels = h.labels ++ [(request.uuid, .cached)])
      (cache : h'.cache = update h.cache request.uuid (some h.labels.length))
      (moved : task.evicts = none ∧ next = .fetched request h.labels.length)
  | evict (key : UUID) (set : ℕ) (cache : h'.cache = h.cache) (labels : h'.labels = h.labels.set set (key, .evicted))
      (task : task = .locked (.onEvicted key set)) (next : next = .releasing key .evicted)

theorem Kept.label_of_evicts (hk : Kept h) (htask : task ∈ h.tasks) {key : UUID}
    (hevicts : task.evicts = some (key, set)) : h.labels[set]? = some (key, .expired) := by
  by_contra hlabel
  have hzero := hk.evictions key set
  rw [if_neg hlabel, countP_eq_zero] at hzero
  exact hzero task htask (by simpa using hevicts)

theorem Kept.relabelled (hk : Kept h) (htask : task ∈ h.tasks) (hmoved : Moved h i task h' next) :
    Relabelled h h' task next := by
  cases hmoved with
  | lock km job stored quiet =>
    refine .same rfl rfl (by rw [evicts, job, evicts]) ?_
    rintro request set rfl
    cases quiet
  | fetch request set cached =>
    refine .same rfl rfl rfl ?_
    rintro _ _ ⟨⟩
    exact cached
  | create request missing =>
    have hlength : h.labels.length = h.sets.length := length_map _
    exact .create request missing (by simp [labels]) (by rw [hlength]) ⟨rfl, by rw [hlength]⟩
  | evict key set s found =>
    have hlabel := hk.label_of_evicts htask rfl
    obtain rfl : s.key = key := by
      simp only [labels, getElem?_map, found, map_some, some.injEq, Prod.mk.injEq] at hlabel
      exact hlabel.1
    exact .evict s.key set rfl (by simp [labels, map_set]) rfl rfl
  | store request set s found after bonded closed h' next stored members moved =>
    obtain rfl := moved
    refine .same (labels_store found after) rfl (by rw [evicts, stored.2.2]; rfl) ?_
    rintro _ _ rfl
    cases stored.1

section

variable (hk : Kept h) (htask : h.tasks[i]? = some task) (hmoved : Relabelled h h' task next)
include hk htask hmoved

theorem Kept.filed_move (key : UUID) (set : ℕ) : h'.cache key = some set ↔ h'.labels[set]? = some (key, .cached) := by
  cases hmoved with
  | same labels cache => rw [cache, labels, hk.filed]
  | create request missing labels cache =>
    rw [cache, labels]
    by_cases hkey : key = request.uuid
    · subst hkey
      rw [update_self, some.injEq]
      constructor
      · rintro rfl
        exact getElem?_concat_length
      · intro hlabel
        obtain hlabel | ⟨rfl, _⟩ := getElem?_concat_cases hlabel
        · rw [(hk.filed request.uuid set).mpr hlabel] at missing
          cases missing
        · rfl
    · rw [update_of_ne hkey, hk.filed]
      constructor
      · exact getElem?_append_of_some
      · intro hlabel
        obtain hlabel | ⟨_, heq⟩ := getElem?_concat_cases hlabel
        · exact hlabel
        · exact absurd (congrArg Prod.fst heq) hkey
  | evict evicted other cache labels moved =>
    have hlabel := hk.label_of_evicts (mem_of_getElem? htask) (by rw [moved]; rfl)
    rw [cache, labels, hk.filed, getElem?_set]
    split_ifs with heq hlt
    · subst heq
      simp [hlabel]
    · subst heq
      exact absurd (getElem?_lt hlabel) hlt
    · rfl

theorem Kept.evictions_move (key : UUID) (set : ℕ) :
    ((h.tasks.set i next).countP fun task => task.evicts = some (key, set)) =
      if h'.labels[set]? = some (key, .expired) then 1 else 0 := by
  have hcount := countP_set_add (p := fun task => task.evicts = some (key, set)) (b := next) htask
  simp only [decide_eq_true_eq, hk.evictions] at hcount
  cases hmoved with
  | same labels _ evicts =>
    rw [evicts] at hcount
    rw [Nat.add_right_cancel hcount, labels]
  | create request missing labels _ moved =>
    have hnext : next.evicts = none := by rw [moved.2]; rfl
    simp only [moved.1, hnext, reduceCtorEq, if_false, Nat.add_zero] at hcount
    rw [hcount, labels]
    congr 1
    rw [eq_iff_iff]
    constructor
    · exact getElem?_append_of_some
    · intro hlabel
      obtain hlabel | ⟨_, heq⟩ := getElem?_concat_cases hlabel
      · exact hlabel
      · cases congrArg Prod.snd heq
  | evict evicted other _ labels moved done =>
    have hbefore : task.evicts = some (evicted, other) := by rw [moved]; rfl
    have hafter : next.evicts = none := by rw [done]; rfl
    have hlabel := hk.label_of_evicts (mem_of_getElem? htask) hbefore
    have hlt := getElem?_lt hlabel
    simp only [hbefore, hafter, reduceCtorEq, if_false, Nat.add_zero, some.injEq, Prod.mk.injEq] at hcount
    rw [labels, getElem?_set]
    by_cases heq : other = set
    · subst heq
      simp only [hlabel, hlt, if_true, some.injEq, Prod.mk.injEq, reduceCtorEq, and_false, if_false, and_true]
        at hcount ⊢
      omega
    · simp only [heq, and_false, if_false, Nat.add_zero] at hcount ⊢
      exact hcount

theorem Kept.fetched_move (request : Request α) (set : ℕ) (hmem : .fetched request set ∈ h.tasks.set i next) :
    h'.labels[set]? = some (request.uuid, .cached) ∨ h'.labels[set]? = some (request.uuid, .expired) := by
  obtain hold | hnew := mem_or_eq_of_mem_set hmem
  · have hbefore := hk.fetched request set hold
    cases hmoved with
    | same labels => rwa [labels]
    | create _ _ labels =>
      rw [labels]
      exact hbefore.imp getElem?_append_of_some getElem?_append_of_some
    | evict key other cache labels moved done =>
      have hlabel := hk.label_of_evicts (mem_of_getElem? htask) (by rw [moved]; rfl)
      have hne : other ≠ set := by
        rintro rfl
        obtain rfl : key = request.uuid := by
          rw [hlabel] at hbefore
          simpa using hbefore
        -- both have the mutex of the key
        have hle := (hk.balanced request.uuid).holding_le_one
        have heq := eq_of_countP_le_one hle hold (mem_of_getElem? htask) (by simp [held])
          (by simp [moved, held, Job.key])
        rw [moved] at heq
        cases heq
      rwa [labels, getElem?_set_ne hne]
  · cases hmoved with
    | same labels _ _ fetched => exact .inl (by rw [labels, ← hk.filed, fetched request set hnew.symm])
    | create other missing labels cache moved =>
      rw [moved.2] at hnew
      cases hnew
      exact .inl (by rw [labels, getElem?_concat_length])
    | evict key other cache labels moved done =>
      rw [done] at hnew
      cases hnew

end

theorem RatioConns.count_conns (ratioConns : RatioConns) (conn : ℕ) :
    ratioConns.conns.count conn = ratioConns.members conn := by
  rw [conns, count, countP_map]
  rfl

theorem any_set {p : Task α → Bool} (htask : h.tasks[i]? = some task) (conn : ℕ) :
    (h.tasks.set i next)[conn]?.any p = if i = conn then p next else h.tasks[conn]?.any p := by
  have hlt := getElem?_lt htask
  split_ifs with heq
  · rw [← heq, getElem?_set_self hlt, any_some]
  · rw [getElem?_set_ne heq]

theorem Kept.status_ne (hk : Kept h) {request : Request α} (htask : .fetched request set ∈ h.tasks)
    (hs : h.sets[set]? = some s) : s.status ≠ .evicted := by
  have hlabel := hk.fetched request set htask
  simp only [labels, getElem?_map, hs, map_some, some.injEq, Prod.mk.injEq] at hlabel
  obtain ⟨_, hstatus⟩ | ⟨_, hstatus⟩ := hlabel <;> simp [hstatus]

theorem Kept.places_move (hk : Kept h) (htask : h.tasks[i]? = some task) (hmoved : Moved h i task h' next) (conn : ℕ) :
    h'.places conn = if (h.tasks.set i next)[conn]?.any stored then 1 else 0 := by
  have hplaces := hk.places conn
  have hsame (hstored : next.stored = task.stored) :
      (h.tasks.set i next)[conn]?.any stored = h.tasks[conn]?.any stored := by
    rw [any_set htask]
    split_ifs with heq
    · rw [← heq, htask, any_some, hstored]
    · rfl
  cases hmoved with
  | lock km job stored => rwa [hsame stored]
  | fetch => rwa [hsame rfl]
  | create request =>
    rw [hsame rfl, ← hplaces]
    simp [Inbound.places, bondings, total_append, total, waiting, RatioConns.members]
  | evict key set s found =>
    rw [hsame rfl, ← hplaces]
    have hlabel := hk.label_of_evicts (mem_of_getElem? htask) rfl
    have hexpired : s.status = .expired := by
      simp only [labels, getElem?_map, found, map_some, some.injEq, Prod.mk.injEq] at hlabel
      exact hlabel.2
    have hset := total_set (f := waiting conn) found { s with status := .evicted }
    have hbefore : waiting conn s = s.ratioConns.members conn := by simp [waiting, hexpired]
    have hafter : waiting conn { s with status := .evicted } = 0 := if_pos rfl
    simp only [Inbound.places, bondings, count_append, RatioConns.count_conns]
    omega
  | store request set s found after bonded closed h' next stored members moved =>
    obtain rfl := moved
    have hlive := hk.status_ne (mem_of_getElem? htask) found
    have hset := total_set (f := waiting conn) found { s with ratioConns := after }
    have hbefore : waiting conn s = s.ratioConns.members conn := if_neg hlive
    have hafter : waiting conn { s with ratioConns := after } = after.members conn := if_neg hlive
    have hmembers := members conn
    rw [any_set htask]
    simp only [Inbound.places, bondings, count_append, total_append] at hplaces ⊢
    by_cases heq : i = conn
    · subst heq
      simp only [htask, any_some, Task.stored, Bool.false_eq_true, if_false] at hplaces
      simp only [if_true, stored.1] at hmembers ⊢
      omega
    · simp only [heq, if_false] at hmembers ⊢
      omega

theorem Kept.sound_move (hk : Kept h) (hmoved : Moved h i task h' next) (key : UUID) :
    .panicked key ∉ h.tasks.set i next := by
  intro hmem
  obtain hold | hnew := mem_or_eq_of_mem_set hmem
  · exact hk.sound key hold
  · cases hmoved with
    | lock km job stored quiet =>
      rw [← hnew] at quiet
      cases quiet
    | fetch | create | evict => cases hnew
    | store request set s found after bonded closed h' next stored =>
      rw [← hnew] at stored
      cases stored.1

theorem Moved.tasks_eq (hmoved : Moved h i task h' next) : h'.tasks = h.tasks := by
  cases hmoved with
  | lock | fetch | create | evict => rfl
  | store request set s found after bonded closed h' next stored members moved => rw [moved]

theorem Kept.advance (hk : Kept h) (htask : h.tasks[i]? = some task) (hmove : h.advance i task = some (h', next))
    (hfits : ∀ request set, task = .fetched request set →
      ∀ s, h.sets[set]? = some s → fits s.ratioConns request = true) :
    Kept { h' with tasks := h'.tasks.set i next } := by
  obtain ⟨hmoved, hmtx⟩ := moved_of_advance hmove hfits
  have hlabels := hk.relabelled (mem_of_getElem? htask) hmoved
  have hfiled := hk.filed_move htask hlabels
  have hevictions := hk.evictions_move htask hlabels
  have hfetched := hk.fetched_move htask hlabels
  have hplaces := hk.places_move htask hmoved
  rw [hmoved.tasks_eq]
  exact ⟨fun key => hmtx.balanced htask (hk.balanced key), hfiled, hevictions, hfetched,
    hk.sound_move hmoved, hplaces⟩

theorem any_concat {p : Task α → Bool} (hnew : p next = false) (conn : ℕ) :
    (h.tasks ++ [next])[conn]?.any p = h.tasks[conn]?.any p := by
  rcases Nat.lt_trichotomy conn h.tasks.length with hlt | rfl | hgt
  · rw [getElem?_append_left hlt]
  · simp [hnew]
  · have hlen : (h.tasks ++ [next]).length ≤ conn := by
      rw [length_append, length_singleton]
      omega
    rw [getElem?_eq_none hlen, getElem?_eq_none (by omega)]

theorem Kept.accept (hk : Kept h) (hevicts : next.evicts = none) (hquiet : next.quiet = true)
    (hstored : next.stored = false) (hfree : next.held = none ∧ next.wanted = none) :
    Kept { h with tasks := h.tasks ++ [next] } where
  balanced key := by simpa [hfree] using hk.balanced key
  filed := hk.filed
  evictions key set := by simpa [labels, hevicts] using hk.evictions key set
  fetched request set hmem := by
    obtain hmem | hmem := mem_append.mp hmem
    · exact hk.fetched request set hmem
    · rw [← mem_singleton.mp hmem] at hquiet
      cases hquiet
  sound key hmem := by
    obtain hmem | hmem := mem_append.mp hmem
    · exact hk.sound key hmem
    · rw [← mem_singleton.mp hmem] at hquiet
      cases hquiet
  places conn := by
    rw [any_concat hstored]
    exact hk.places conn

theorem Kept.expire (hk : Kept h) {key : UUID} (hcache : h.cache key = some set)
    (hs : h.sets[set]? = some s) : Kept { h with
      cache := update h.cache key none
      sets := h.sets.set set { s with status := .expired }
      tasks := h.tasks ++ [.ready (.onEvicted key set)] } := by
  have hlabel := (hk.filed key set).mp hcache
  have hlt := getElem?_lt hlabel
  obtain ⟨rfl, hstatus⟩ : s.key = key ∧ s.status = .cached := by
    simpa only [labels, getElem?_map, hs, map_some, some.injEq, Prod.mk.injEq] using hlabel
  have hlabels (other : ℕ) : ((h.sets.set set { s with status := .expired }).map fun s => (s.key, s.status))[other]? =
      if set = other then some (s.key, .expired) else h.labels[other]? := by
    rw [map_set, getElem?_set]
    split_ifs with heq hout
    · rfl
    · simp only [length_map] at hout
      simp only [labels, length_map] at hlt
      exact absurd hlt hout
    · rfl
  refine ⟨fun other => ?_, fun other t => ?_, fun other t => ?_, fun request t hmem => ?_, fun other hmem => ?_,
    fun conn => ?_⟩
  · simpa [held, wanted] using hk.balanced other
  · rw [labels, hlabels]
    by_cases hkey : other = s.key
    · subst hkey
      simp only [update_self]
      split_ifs with heq
      · simp
      · simp only [false_iff]
        intro hother
        exact heq (some.inj (hcache.symm.trans ((hk.filed s.key t).mpr hother)))
    · simp only [update_of_ne hkey, hk.filed]
      split_ifs with heq
      · subst heq
        simp [hlabel, Ne.symm hkey]
      · rfl
  · rw [labels, hlabels, countP_append, hk.evictions]
    by_cases heq : set = t
    · subst heq
      simp [hlabel, evicts, job, countP_singleton]
    · simp [heq, evicts, job]
  · rw [labels, hlabels]
    obtain hmem | hmem := mem_append.mp hmem
    · have hbefore := hk.fetched request t hmem
      split_ifs with heq
      · subst heq
        rw [hlabel] at hbefore
        simpa using hbefore
      · exact hbefore
    · cases mem_singleton.mp hmem
  · obtain hmem | hmem := mem_append.mp hmem
    · exact hk.sound other hmem
    · cases mem_singleton.mp hmem
  · have hset := total_set (f := waiting conn) hs { s with status := .expired }
    have hbefore : waiting conn s = s.ratioConns.members conn := by simp [waiting, hstatus]
    have hafter : waiting conn { s with status := .expired } = s.ratioConns.members conn := by simp [waiting]
    rw [any_concat rfl, ← hk.places]
    simp only [Inbound.places, bondings]
    omega

theorem Kept.step (hk : Kept h) {a : Step} (hmet : h.proper a = true) (hstep : h.step serializer a = some h') :
    Kept h' := by
  cases a with
  | accept stream =>
    cases hstep
    cases hread : readRequest serializer stream with
    | ok read | error e => exact hk.accept rfl rfl rfl ⟨rfl, rfl⟩
  | advance i =>
    obtain ⟨task, htask, ⟨moved, next⟩, hmove, rfl⟩ := bind_map_eq_some hstep
    simp only [proper, htask] at hmet
    refine hk.advance htask hmove ?_
    rintro request set rfl s hs
    simpa [hs] using hmet
  | expire key =>
    obtain ⟨set, hcache, s, hs, rfl⟩ := bind_map_eq_some hstep
    exact hk.expire hcache hs

end Inbound

end Hydracore.Bond
