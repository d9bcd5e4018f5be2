import Hydracore.Parasite.Relay.Model

namespace Hydracore.Parasite.Relay

open Systems Option

def Pc.live : Pc → Bool
  | .done => false
  | _ => true

def Pc.listed : Pc → Option ℕ
  | .start p | .watch p | .remove p => some p
  | _ => none

def Pc.offered : Pc → Option (ℕ × ℕ)
  | .initOffer p ctx | .offer p ctx _ => some (p, ctx)
  | _ => none

inductive Proceeded (s : Shared) (id : UInt16) (pc : Pc) : Shared → Pc → Option Pc → Prop
  | walked {pc' : Pc} (live : pc'.live = true) (listed : pc'.listed = pc.listed) (offered : pc'.offered = none) :
      Proceeded s id pc s pc' none
  | opened {pc' : Pc} {ctx : ℕ} (src : pc.listed = none) (live : pc'.live = true) (listed : pc'.listed = none)
      (offered : pc'.offered = some (s.heap.length, ctx)) : Proceeded s id pc (s.opened id ctx) pc' none
  | terminated (src : pc.listed = none) : Proceeded s id pc (s.failed id) .done none
  | quit (src : pc.listed = none) (finished : s.closed = true ∨ s.ctxDone = true) : Proceeded s id pc s .done none
  | handed {q : Pc} (live : q.live = true) (listed : q.listed = pc.listed) (offered : q.offered = none) :
      Proceeded s id pc s .done (some q)
  | admitted {p ctx : ℕ} (src : pc.listed = none) (offered : pc.offered = some (p, ctx))
      (current : ctx = s.generationCtx) (open_ : s.closed = false) : Proceeded s id pc (s.appendPath p) (.start p) none
  | rejected {p backoff : ℕ} (src : pc.listed = none) : Proceeded s id pc (s.closeConn p) (.check backoff) none
  | rejectedFirst {p backoff : ℕ} (src : pc.listed = none) :
      Proceeded s id pc (s.closeConn p) .done (some (.check backoff))
  | removed {p : ℕ} (src : pc.listed = some p) : Proceeded s id pc (s.removePath p) (.retire p) none

theorem admits_cases {s : Shared} {ctx : ℕ} (h : ¬ s.refuses ctx = true) :
    ctx = s.generationCtx ∧ s.closed = false := by
  simp only [Shared.refuses, Bool.or_eq_true, decide_eq_true_eq, not_or, not_not, Bool.not_eq_true] at h
  exact ⟨h.1.2, h.1.1⟩

variable {s s' : Shared} {spawned : Option Pc}

theorem proceed_cases {id : UInt16} {pc pc' : Pc} {a : TaskAction}
    (h : proceed s id pc a = some (s', pc', spawned)) : pc.live = true ∧ Proceeded s id pc s' pc' spawned := by
  unfold proceed at h
  split at h
  case h_1 =>
    cases h
    refine ⟨rfl, ?_⟩
    split_ifs with hclosed
    · exact .quit rfl (.inl hclosed)
    · exact .walked rfl rfl rfl
  case h_6 =>
    refine ⟨rfl, ?_⟩
    split_ifs at h with hr
    all_goals cases h
    · exact .walked rfl rfl rfl
    · exact .admitted rfl rfl (admits_cases hr).1 (admits_cases hr).2
  case h_8 =>
    cases h
    refine ⟨rfl, ?_⟩
    split_ifs with hover
    · exact .quit rfl (Bool.or_eq_true_iff.mp hover)
    · exact .walked rfl rfl rfl
  case h_13 =>
    refine ⟨rfl, ?_⟩
    split_ifs at h with hr
    all_goals cases h
    · exact .walked rfl rfl rfl
    · exact .admitted rfl rfl (admits_cases hr).1 (admits_cases hr).2
  case h_16 =>
    split_ifs at h
    cases h
    exact ⟨rfl, .walked rfl rfl rfl⟩
  case h_18 =>
    split_ifs at h
    cases h
    exact ⟨rfl, .walked rfl rfl rfl⟩
  case h_20 =>
    cases h
    refine ⟨rfl, ?_⟩
    split_ifs with hclosed
    · exact .quit rfl (.inl hclosed)
    · exact .handed rfl rfl rfl
  case h_21 => cases h
  all_goals
    cases h
    refine ⟨rfl, ?_⟩
  case h_3 | h_10 => exact .opened rfl rfl rfl rfl
  case h_4 | h_11 => exact .terminated rfl
  case h_5 | h_17 => exact .handed rfl rfl rfl
  case h_7 => exact .rejectedFirst rfl
  case h_14 => exact .rejected rfl
  case h_19 => exact .removed rfl
  case h_2 | h_9 | h_12 | h_15 => exact .walked rfl rfl rfl

structure Grows (s s' : Shared) : Prop where
  kept : ∀ (p : ℕ) path, s.heap[p]? = some path → ∃ path', s'.heap[p]? = some path' ∧ path'.id = path.id ∧
    path'.ctx = path.ctx ∧ (path.closed = true → path'.closed = true)
  closed : s.closed = true → s'.closed = true
  parentDone : s.parentDone = true → s'.parentDone = true
  terminated : ∀ id ∈ s.terminated, id ∈ s'.terminated

theorem Grows.of_heap (hh : s'.heap = s.heap) (hc : s.closed = true → s'.closed = true)
    (hp : s.parentDone = true → s'.parentDone = true) (ht : ∀ id ∈ s.terminated, id ∈ s'.terminated) :
    Grows s s' where
  kept := fun _ path hpath => ⟨path, hh ▸ hpath, rfl, rfl, id⟩
  closed := hc
  parentDone := hp
  terminated := ht

theorem Grows.refl (s : Shared) : Grows s s := .of_heap rfl id id (fun _ => id)

theorem Grows.trans {s s' s'' : Shared} (h : Grows s s') (h' : Grows s' s'') : Grows s s'' where
  kept := by
    intro p path hpath
    obtain ⟨path', hpath', hid, hctx, hclosed⟩ := h.kept p path hpath
    obtain ⟨path'', hpath'', hid', hctx', hclosed'⟩ := h'.kept p path' hpath'
    exact ⟨path'', hpath'', hid'.trans hid, hctx'.trans hctx, hclosed' ∘ hclosed⟩
  closed := h'.closed ∘ h.closed
  parentDone := h'.parentDone ∘ h.parentDone
  terminated := fun id hid => h'.terminated id (h.terminated id hid)

theorem grows_opened (s : Shared) (id : UInt16) (ctx : ℕ) : Grows s (s.opened id ctx) where
  kept := by
    intro p path hpath
    refine ⟨path, ?_, rfl, rfl, fun h => h⟩
    exact (List.getElem?_append_left (getElem?_lt hpath)).trans hpath
  closed := fun h => h
  parentDone := fun h => h
  terminated := fun _ h => h

theorem grows_modify (s : Shared) (p : ℕ) (f : Path → Path) (hid : ∀ x, (f x).id = x.id)
    (hctx : ∀ x, (f x).ctx = x.ctx) (hclosed : ∀ x, x.closed = true → (f x).closed = true) :
    Grows s { s with heap := s.heap.modify p f } where
  kept := by
    intro q path hpath
    by_cases hq : p = q
    · refine ⟨f path, ?_, hid path, hctx path, hclosed path⟩
      simp [hq, hpath]
    · refine ⟨path, ?_, rfl, rfl, id⟩
      simp [hq, hpath]
  closed := id
  parentDone := id
  terminated := fun _ h => h

theorem grows_closeConn (s : Shared) (p : ℕ) : Grows s (s.closeConn p) :=
  grows_modify s p _ (fun _ => rfl) (fun _ => rfl) (fun _ _ => rfl)

theorem grows_closeAll (s : Shared) (ps : List ℕ) : Grows s (ps.foldl Shared.closeConn s) := by
  induction ps generalizing s with
  | nil => exact .refl s
  | cons p ps ih => exact (grows_closeConn s p).trans (ih (s.closeConn p))

theorem Proceeded.grows {id : UInt16} {pc pc' : Pc} (h : Proceeded s id pc s' pc' spawned) : Grows s s' := by
  cases h with
  | walked | quit | handed => exact .refl s
  | opened => exact grows_opened s id _
  | terminated => exact .of_heap rfl (fun h => h) (fun h => h) (fun _ h => List.mem_cons_of_mem _ h)
  | admitted | removed => exact .of_heap rfl (fun h => h) (fun h => h) (fun _ h => h)
  | rejected | rejectedFirst => exact grows_closeConn s _

inductive Rebound (s : Shared) (gen : UInt64) : RebindPc → Shared → RebindPc → Prop
  | ignored (old : gen ≤ s.appliedNetworkGeneration) : Rebound s gen .loading s .returned
  | loaded (newer : ¬ gen ≤ s.appliedNetworkGeneration) :
      Rebound s gen .loading s (.swapping s.appliedNetworkGeneration)
  | swapped : Rebound s gen (.swapping s.appliedNetworkGeneration)
      { s with appliedNetworkGeneration := gen } .locking
  | raced {applied : UInt64} : Rebound s gen (.swapping applied) s .loading
  | locked : Rebound s gen .locking { s with generationCtx := s.generationCtx + 1 } (.closing s.paths)
  | closed {p : ℕ} {rest : List ℕ} : Rebound s gen (.closing (p :: rest)) (s.closeConn p) (.closing rest)
  | returned : Rebound s gen (.closing []) s .returned

variable {pc pc' : RebindPc} {gen : UInt64}

theorem rebindNetwork_cases (h : rebindNetwork s gen pc = some (s', pc')) : Rebound s gen pc s' pc' := by
  unfold rebindNetwork at h
  split at h
  case h_1 =>
    cases h
    split_ifs with hold
    · exact .ignored hold
    · exact .loaded hold
  case h_2 =>
    split_ifs at h with hsame <;> cases h
    · exact hsame ▸ .swapped
    · exact .raced
  all_goals cases h
  · exact .locked
  · exact .closed
  · exact .returned

theorem Rebound.grows (h : Rebound s gen pc s' pc') : Grows s s' := by
  cases h with
  | closed => exact grows_closeConn s _
  | _ => exact .of_heap rfl id id (fun _ => id)

theorem Rebound.keeps (h : Rebound s gen pc s' pc') : s'.paths = s.paths ∧ s'.cancelled = s.cancelled := by
  cases h <;> exact ⟨rfl, rfl⟩

theorem close_grows {pc pc' : Closing} (h : close s pc = some (s', pc')) : Grows s s' := by
  cases pc <;> cases h
  case waiting => exact .of_heap rfl (fun _ => rfl) id (fun _ => id)
  case stored => exact .of_heap rfl id id (fun _ => id)
  case cancelled => exact (grows_closeAll s s.paths).trans (.of_heap rfl id id (fun _ => id))

theorem close_paths {pc pc' : Closing} (h : close s pc = some (s', pc')) : s'.paths = s.paths ∨ s'.paths = [] := by
  cases pc <;> cases h
  case cancelled => exact .inr rfl
  all_goals exact .inl rfl

inductive Stepped (n : ℕ) (s : State) : Action → State → Prop
  | launched (more : s.launched < n) : Stepped n s .launch
      { s with launched := s.launched + 1, tasks := s.tasks ++ [⟨UInt16.ofNat s.launched, .initCheck⟩] }
  | task {i : ℕ} {a : TaskAction} {t : Task} {shared : Shared} {pc : Pc} {spawned : Option Pc}
      (get : s.tasks[i]? = some t) (live : t.pc.live = true)
      (by_ : Proceeded s.shared t.id t.pc shared pc spawned) : Stepped n s (.task i a) { s with
        shared := shared
        tasks := s.tasks.set i { t with pc := pc } ++ (spawned.map (Task.mk t.id)).toList }
  | rebind {gen : UInt64} : Stepped n s (.rebind gen)
      { s with rebinds := s.rebinds ++ [⟨gen, if gen = 0 then .locking else .loading⟩] }
  | rebindStep {i : ℕ} {r : Rebind} {shared : Shared} {pc : RebindPc} (get : s.rebinds[i]? = some r)
      (by_ : Rebound s.shared r.gen r.pc shared pc) : Stepped n s (.rebindStep i)
      { s with shared := shared, rebinds := s.rebinds.set i { r with pc := pc } }
  | close {shared : Shared} {pc : Closing} (result : Relay.close s.shared s.closing = some (shared, pc)) :
      Stepped n s .close { s with shared := shared, closing := pc }
  | died {p : ℕ} : Stepped n s (.die p) { s with shared := { s.shared with
      heap := s.shared.heap.modify p fun path => { path with done := true } } }
  | parentCancelled : Stepped n s .parentCancel { s with shared := { s.shared with parentDone := true } }

theorem step_cases {n : ℕ} {s s' : State} {a : Action} (h : step n s a = some s') : Stepped n s a s' := by
  cases a with
  | launch =>
    simp only [step] at h
    split_ifs at h with hmore
    cases h
    exact .launched hmore
  | task i a =>
    obtain ⟨t, ht, ⟨shared, pc, spawned⟩, hp, rfl⟩ := bind_map_eq_some h
    obtain ⟨hlive, hp⟩ := proceed_cases hp
    exact .task ht hlive hp
  | rebind gen =>
    cases h
    exact .rebind
  | rebindStep i =>
    obtain ⟨r, hr, ⟨shared, pc⟩, hp, rfl⟩ := bind_map_eq_some h
    exact .rebindStep hr (rebindNetwork_cases hp)
  | close =>
    obtain ⟨⟨shared, pc⟩, hp, rfl⟩ := map_eq_some_iff.mp h
    exact .close hp
  | die p =>
    cases h
    exact .died
  | parentCancel =>
    cases h
    exact .parentCancelled

theorem Stepped.grows {n : ℕ} {s s' : State} {a : Action} (h : Stepped n s a s') : Grows s.shared s'.shared := by
  cases h with
  | launched | rebind => exact .refl _
  | task get live by_ => exact by_.grows
  | rebindStep get by_ => exact by_.grows
  | close result => exact close_grows result
  | died => exact grows_modify _ _ _ (fun _ => rfl) (fun _ => rfl) (fun _ => id)
  | parentCancelled => exact .of_heap rfl id (fun _ => rfl) (fun _ => id)

end Hydracore.Parasite.Relay
