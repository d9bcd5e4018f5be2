import Hydracore.Parasite.Relay.Ownership

namespace Hydracore.Parasite.Relay

open Systems List

variable {n i : ℕ} {s s' : State} {a : Action} {gen : UInt64} {r : Rebind} {pc pc' : RebindPc}

/-- A path of the current network, or one that is closed, or that a running `RebindNetwork` is about to close. -/
def Fresh (s : Shared) (rebinds : List Rebind) (p : ℕ) : Prop :=
  ∃ path, s.heap[p]? = some path ∧ path.ctx ≤ s.generationCtx ∧ (path.ctx = s.generationCtx ∨ path.closed = true ∨
    ∃ r ∈ rebinds, ∃ ps, r.pc = .closing ps ∧ p ∈ ps)

structure Current (s : State) : Prop where
  named : ∀ t ∈ s.tasks, Named s.shared t
  fresh : ∀ p ∈ s.shared.paths, Fresh s.shared s.rebinds p
  newer : ∀ r ∈ s.rebinds, ∀ applied, r.pc = .swapping applied → applied < r.gen

theorem current_initial : Current .initial where
  named := by intro t ht; cases ht
  fresh := by intro p hp; cases hp
  newer := by intro r hr; cases hr

variable {p : ℕ}

theorem Fresh.mono {s s' : Shared} {rebinds rebinds' : List Rebind} (h : Fresh s rebinds p)
    (hg : Grows s s') (hctx : s'.generationCtx = s.generationCtx) (hr : ∀ r ∈ rebinds, r ∈ rebinds') :
    Fresh s' rebinds' p := by
  obtain ⟨path, hpath, hdated, hwhy⟩ := h
  obtain ⟨path', hpath', -, hctx', hclosed'⟩ := hg.kept p path hpath
  refine ⟨path', hpath', by rwa [hctx', hctx], ?_⟩
  rcases hwhy with hcur | hclosed | ⟨r, hmem, ps, hpc, hp⟩
  · exact .inl (hctx'.trans (hcur.trans hctx.symm))
  · exact .inr (.inl (hclosed' hclosed))
  · exact .inr (.inr ⟨r, hr r hmem, ps, hpc, hp⟩)

section

variable {s s' : Shared} {id : UInt16} {pc pc' : Pc} {spawned : Option Pc} (h : Proceeded s id pc s' pc' spawned)
include h

theorem Proceeded.keeps :
    s'.generationCtx = s.generationCtx ∧ s'.appliedNetworkGeneration = s.appliedNetworkGeneration := by
  cases h <;> exact ⟨rfl, rfl⟩

theorem Proceeded.mem_paths (hp : p ∈ s'.paths) :
    p ∈ s.paths ∨ ∃ ctx, pc.offered = some (p, ctx) ∧ ctx = s.generationCtx := by
  cases h with
  | @admitted q ctx src offered current =>
    rcases mem_concat_cases hp with hp | rfl
    · exact .inl hp
    · exact .inr ⟨ctx, offered, current⟩
  | removed => exact .inl (mem_of_mem_erase hp)
  | _ => exact .inl hp

end

theorem closeAll_keeps (s : Shared) (ps : List ℕ) : (ps.foldl Shared.closeConn s).generationCtx = s.generationCtx ∧
      (ps.foldl Shared.closeConn s).appliedNetworkGeneration = s.appliedNetworkGeneration := by
  induction ps generalizing s with
  | nil => exact ⟨rfl, rfl⟩
  | cons p ps ih => exact ih (s.closeConn p)

theorem close_keeps {s s' : Shared} {pc pc' : Closing} (h : close s pc = some (s', pc')) :
    s'.generationCtx = s.generationCtx ∧ s'.appliedNetworkGeneration = s.appliedNetworkGeneration := by
  cases pc with
  | waiting | stored =>
    cases h
    exact ⟨rfl, rfl⟩
  | cancelled =>
    cases h
    exact closeAll_keeps s s.paths
  | finished => cases h

theorem closeConn_closed {s : Shared} {path : Path} (h : (s.closeConn p).heap[p]? = some path) :
    path.closed = true := by
  rw [Shared.closeConn, getElem?_modify_eq] at h
  obtain ⟨_, -, rfl⟩ := Option.map_eq_some_iff.mp h
  rfl

theorem Rebound.ctx_le {s s' : Shared} (h : Rebound s gen pc s' pc') :
    s.generationCtx ≤ s'.generationCtx := by
  cases h with
  | locked => exact Nat.le_succ _
  | _ => exact Nat.le_refl _

theorem Rebound.fresh {s s' : Shared} (h : Rebound s gen pc s' pc') {rebinds : List Rebind}
    (get : rebinds[i]? = some ⟨gen, pc⟩) (hp : p ∈ s.paths)
    (hf : Fresh s rebinds p) : Fresh s' (rebinds.set i ⟨gen, pc'⟩) p := by
  have hg := h.grows
  have hself : (⟨gen, pc'⟩ : Rebind) ∈ rebinds.set i ⟨gen, pc'⟩ := mem_set (getElem?_lt get) _
  obtain ⟨path, hpath, hdated, hwhy⟩ := hf
  obtain ⟨path', hpath', -, hctx', hclosed'⟩ := hg.kept p path hpath
  refine ⟨path', hpath', (hctx'.trans_le hdated).trans h.ctx_le, ?_⟩
  by_cases hlock : pc = .locking
  · subst hlock
    cases h with
    | locked => exact .inr (.inr ⟨_, hself, s.paths, rfl, hp⟩)
  · have hsame : s'.generationCtx = s.generationCtx := by
      cases h <;> first | rfl | exact absurd rfl hlock
    rcases hwhy with hcur | hclosed | ⟨r, hmem, ps, hpc, hps⟩
    · exact .inl (hctx'.trans (hcur.trans hsame.symm))
    · exact .inr (.inl (hclosed' hclosed))
    · rcases mem_set_or hmem i ⟨gen, pc'⟩ with hkept | hmoved
      · exact .inr (.inr ⟨r, hkept, ps, hpc, hps⟩)
      · cases hmoved.symm.trans get
        subst hpc
        cases h with
        | @closed q rest =>
          rcases mem_cons.mp hps with rfl | hrest
          · exact .inr (.inl (closeConn_closed hpath'))
          · exact .inr (.inr ⟨_, hself, rest, rfl, hrest⟩)
        | returned => cases hps

theorem Stepped.rebind_cases (hs : Stepped n s a s') :
    (s'.shared.generationCtx = s.shared.generationCtx ∧
      s'.shared.appliedNetworkGeneration = s.shared.appliedNetworkGeneration ∧ s.rebinds ⊆ s'.rebinds) ∨
    ∃ (i : ℕ) (gen : UInt64) (pc pc' : RebindPc), s.rebinds[i]? = some ⟨gen, pc⟩ ∧
      Rebound s.shared gen pc s'.shared pc' ∧ s'.rebinds = s.rebinds.set i ⟨gen, pc'⟩ := by
  cases hs with
  | task get live by_ => exact .inl ⟨by_.keeps.1, by_.keeps.2, Subset.refl _⟩
  | rebind => exact .inl ⟨rfl, rfl, subset_append_left _ _⟩
  | @rebindStep i r shared pc get by_ => exact .inr ⟨i, r.gen, r.pc, pc, get, by_, rfl⟩
  | close result => exact .inl ⟨(close_keeps result).1, (close_keeps result).2, Subset.refl _⟩
  | _ => exact .inl ⟨rfl, rfl, Subset.refl _⟩

theorem Stepped.ctx_le (hs : Stepped n s a s') : s.shared.generationCtx ≤ s'.shared.generationCtx := by
  rcases hs.rebind_cases with ⟨hctx, -⟩ | ⟨_, _, _, _, -, by_, -⟩
  · exact hctx.ge
  · exact by_.ctx_le

theorem Stepped.applied_cases (hs : Stepped n s a s') :
    s'.shared.appliedNetworkGeneration = s.shared.appliedNetworkGeneration ∨
      ∃ i : ℕ, s'.rebinds[i]? = some (Rebind.mk s'.shared.appliedNetworkGeneration .locking) := by
  rcases hs.rebind_cases with ⟨-, happlied, -⟩ | ⟨i, gen, pc, pc', get, by_, hset⟩
  · exact .inl happlied
  · rw [hset]
    generalize s'.shared = shared at by_ ⊢
    cases by_ with
    | swapped => exact .inr ⟨i, getElem?_set_self (getElem?_lt get)⟩
    | _ => exact .inl rfl

section

variable (hc : Current s) (hs : Stepped n s a s')
include hc hs

theorem Stepped.mem_paths (hp : p ∈ s'.shared.paths) :
    p ∈ s.shared.paths ∨ ∃ path, s.shared.heap[p]? = some path ∧ path.ctx = s.shared.generationCtx := by
  cases hs with
  | @task i b t shared pc spawned get live by_ =>
    rcases by_.mem_paths hp with hp | ⟨ctx, hoff, hcur⟩
    · exact .inl hp
    · obtain ⟨path, hpath, -, hctx⟩ := (hc.named t (mem_of_getElem? get)).2 p ctx hoff
      exact .inr ⟨path, hpath, hctx.trans hcur⟩
  | rebindStep get by_ => exact .inl (by_.keeps.1 ▸ hp)
  | close result =>
    rcases close_paths result with hsame | hnil
    · exact .inl (hsame ▸ hp)
    · rw [hnil] at hp
      cases hp
  | _ => exact .inl hp

theorem Stepped.fresh (p : ℕ) (hp : p ∈ s'.shared.paths) : Fresh s'.shared s'.rebinds p := by
  rcases hs.rebind_cases with ⟨hctx, -, hkept⟩ | ⟨i, gen, pc, pc', get, by_, hset⟩
  · rcases hs.mem_paths hc hp with hp | ⟨path, hpath, hcur⟩
    · exact (hc.fresh p hp).mono hs.grows hctx fun _ hr => hkept hr
    · obtain ⟨path', hpath', -, hctx', -⟩ := hs.grows.kept p path hpath
      have hnow := hctx'.trans (hcur.trans hctx.symm)
      exact ⟨path', hpath', hnow.le, .inl hnow⟩
  · rw [by_.keeps.1] at hp
    rw [hset]
    exact by_.fresh get hp (hc.fresh p hp)

theorem Stepped.newer (r : Rebind) (hr : r ∈ s'.rebinds) (applied : UInt64) (hpc : r.pc = .swapping applied) :
    applied < r.gen := by
  cases hs with
  | @rebind gen =>
    rcases mem_concat_cases hr with hr | rfl
    · exact hc.newer r hr applied hpc
    · split_ifs at hpc
  | @rebindStep i q shared pc get by_ =>
    rcases mem_or_eq_of_mem_set hr with hr | rfl
    · exact hc.newer r hr applied hpc
    · obtain rfl : pc = .swapping applied := hpc
      generalize q.pc = before at by_
      cases by_ with
      | loaded newer => exact UInt64.not_le.mp newer
  | _ => exact hc.newer r hr applied hpc

theorem Stepped.applied_le : s.shared.appliedNetworkGeneration ≤ s'.shared.appliedNetworkGeneration := by
  rcases hs.rebind_cases with ⟨-, happlied, -⟩ | ⟨i, gen, pc, pc', get, by_, -⟩
  · exact UInt64.le_of_eq happlied.symm
  · have hnewer := hc.newer _ (mem_of_getElem? get)
    generalize s'.shared = shared at by_
    cases by_ with
    | swapped => exact UInt64.le_of_lt (hnewer _ rfl)
    | _ => exact UInt64.le_refl _

theorem Stepped.current : Current s' where
  named := hs.named hc.named
  fresh := hs.fresh hc
  newer := hs.newer hc

end

theorem current_run {as : List Action} (h : Run (step n) anyStep .initial as s) : Current s :=
  h.invariant (fun hp _ ht => (step_cases ht).current hp) current_initial

theorem applied_run {as : List Action} (hc : Current s) (h : Run (step n) anyStep s as s') :
    Current s' ∧ s.shared.appliedNetworkGeneration ≤ s'.shared.appliedNetworkGeneration ∧
      s.shared.generationCtx ≤ s'.shared.generationCtx := by
  refine h.invariant (P := fun t => Current t ∧ s.shared.appliedNetworkGeneration ≤ t.shared.appliedNetworkGeneration ∧
    s.shared.generationCtx ≤ t.shared.generationCtx) ?_ ⟨hc, UInt64.le_refl _, Nat.le_refl _⟩
  rintro t a v ⟨hct, hle, hctx⟩ - hv
  have hs := step_cases hv
  exact ⟨hs.current hct, UInt64.le_trans hle (hs.applied_le hct), hctx.trans hs.ctx_le⟩

theorem Stepped.rebinds_get (hs : Stepped n s a s') (hi : s.rebinds[i]? = some r) :
    (s'.rebinds[i]? = some r ∧ a ≠ .rebindStep i) ∨
      ∃ pc, Rebound s.shared r.gen r.pc s'.shared pc ∧ s'.rebinds[i]? = some ⟨r.gen, pc⟩ := by
  cases hs with
  | rebind =>
    exact .inl ⟨(getElem?_append_left (getElem?_lt hi)).trans hi, nofun⟩
  | @rebindStep j q shared pc get by_ =>
    by_cases hij : j = i
    · subst j
      cases get.symm.trans hi
      exact .inr ⟨pc, by_, getElem?_set_self (getElem?_lt hi)⟩
    · exact .inl ⟨(getElem?_set_ne hij).trans hi, by simpa using hij⟩
  | _ => exact .inl ⟨hi, nofun⟩

def Stale (s : State) (i : ℕ) (gen : UInt64) : Prop :=
  gen ≤ s.shared.appliedNetworkGeneration ∧
    (s.rebinds[i]? = some ⟨gen, .loading⟩ ∨ s.rebinds[i]? = some ⟨gen, .returned⟩)

theorem Stale.step (h : Stale s i gen) (hc : Current s) (hs : Stepped n s a s') :
    Stale s' i gen ∧ (a = .rebindStep i → s'.shared = s.shared) := by
  obtain ⟨hle, hpc⟩ := h
  have hle' := UInt64.le_trans hle (hs.applied_le hc)
  rcases hpc with hpc | hpc
  · rcases hs.rebinds_get hpc with ⟨hsame, hother⟩ | ⟨pc, hby, hget⟩
    · exact ⟨⟨hle', .inl hsame⟩, fun ha => absurd ha hother⟩
    · generalize s'.shared = shared at hby
      cases hby with
      | ignored => exact ⟨⟨hle', .inr hget⟩, fun _ => rfl⟩
      | loaded newer => exact absurd hle newer
  · rcases hs.rebinds_get hpc with ⟨hsame, hother⟩ | ⟨pc, hby, -⟩
    · exact ⟨⟨hle', .inr hsame⟩, fun ha => absurd ha hother⟩
    · cases hby

variable {call t : State} {later : List Action}

theorem stale_run (hc : Current s) (h : Stale s i gen) (hrun : Run (step n) anyStep s later t) :
    Current t ∧ Stale t i gen :=
  hrun.invariant (P := fun v => Current v ∧ Stale v i gen)
    (fun hv _ hw => ⟨(step_cases hw).current hv.1, (hv.2.step hv.1 (step_cases hw)).1⟩) ⟨hc, h⟩

theorem stale_called (hcall : step n s (.rebind gen) = some call) (hpos : 0 < gen)
    (hold : gen ≤ s.shared.appliedNetworkGeneration) : Stale call s.rebinds.length gen := by
  cases hcall
  refine ⟨hold, .inl ?_⟩
  rw [if_neg (UInt64.pos_iff_ne_zero.mp hpos)]
  exact getElem?_concat_length

/-- Of the paths pooled in `s`, those still pooled are closed or among `ps`, and their context is not current. -/
def Retired (s v : Shared) (ps : List ℕ) : Prop :=
  s.generationCtx < v.generationCtx ∧ ∀ p ∈ s.paths, p ∈ v.paths → p ∈ ps ∨
    ∃ path, v.heap[p]? = some path ∧ path.closed = true

def Renews (s v : Shared) : RebindPc → Prop
  | .loading | .swapping _ => False
  | .locking => True
  | .closing ps => Retired s v ps
  | .returned => Retired s v []

structure Since (s v : State) : Prop where
  current : Current v
  ctx_le : s.shared.generationCtx ≤ v.shared.generationCtx
  dated : ∀ p ∈ s.shared.paths, ∃ path, v.shared.heap[p]? = some path ∧ path.ctx ≤ s.shared.generationCtx

section

variable {v w : State} (h : Since s v) (hs : Stepped n v a w)
include h hs

theorem Since.step : Since s w where
  current := hs.current h.current
  ctx_le := h.ctx_le.trans hs.ctx_le
  dated := by
    intro p hp
    obtain ⟨path, hpath, hctx⟩ := h.dated p hp
    obtain ⟨path', hpath', -, hctx', -⟩ := hs.grows.kept p path hpath
    exact ⟨path', hpath', hctx'.trans_le hctx⟩

theorem Retired.step {ps : List ℕ} (hr : Retired s.shared v.shared ps) : Retired s.shared w.shared ps := by
  refine ⟨hr.1.trans_le hs.ctx_le, fun p hp hw => ?_⟩
  rcases hs.mem_paths h.current hw with hv | ⟨path, hpath, hctx⟩
  · refine (hr.2 p hp hv).imp_right fun ⟨path, hpath, hclosed⟩ => ?_
    obtain ⟨path', hpath', -, -, hclosed'⟩ := hs.grows.kept p path hpath
    exact ⟨path', hpath', hclosed' hclosed⟩
  · -- a path of an older context is not taken into the pool again
    obtain ⟨path', hpath', hold⟩ := h.dated p hp
    cases hpath.symm.trans hpath'
    have := hr.1
    omega

omit hs in
theorem Since.renews {shared : Shared} (hby : Rebound v.shared gen pc shared pc')
    (hr : Renews s.shared v.shared pc) : Renews s.shared shared pc' := by
  cases hby with
  | ignored | loaded | swapped | raced => cases hr
  | locked => exact ⟨Nat.lt_succ_of_le h.ctx_le, fun p _ hv => .inl hv⟩
  | @closed q rest =>
    refine ⟨hr.1, fun p hp hv => ?_⟩
    obtain ⟨path, hpath, -⟩ := h.dated p hp
    obtain ⟨path', hpath', -, -, hkept⟩ := (grows_closeConn v.shared q).kept p path hpath
    rcases hr.2 p hp hv with hps | ⟨_, hsame, hclosed⟩
    · rcases mem_cons.mp hps with rfl | hrest
      · exact .inr ⟨path', hpath', closeConn_closed hpath'⟩
      · exact .inl hrest
    · cases hpath.symm.trans hsame
      exact .inr ⟨path', hpath', hkept hclosed⟩
  | returned => exact hr

theorem Renews.step (hi : v.rebinds[i]? = some r) (hr : Renews s.shared v.shared r.pc) :
    ∃ pc, w.rebinds[i]? = some ⟨r.gen, pc⟩ ∧ Renews s.shared w.shared pc := by
  rcases hs.rebinds_get hi with ⟨hsame, -⟩ | ⟨pc, hby, hget⟩
  · refine ⟨r.pc, hsame, ?_⟩
    generalize r.pc = pc at hr
    cases pc with
    | loading | swapping _ => exact hr
    | locking => trivial
    | closing ps | returned => exact Retired.step h hs hr
  · exact ⟨pc, hget, h.renews hby hr⟩

/-- A call of `RebindNetwork` that has to renew the network either has yet to raise the applied generation, or it, or one
of a generation at least as high, is doing so or has done so. -/
def Renewing (s v : State) (i : ℕ) (gen : UInt64) : Prop :=
  (gen ≠ 0 ∧ v.shared.appliedNetworkGeneration < gen ∧ ∃ pc, v.rebinds[i]? = some ⟨gen, pc⟩ ∧
    (pc = .loading ∨ ∃ applied, pc = .swapping applied)) ∨
  (gen ≤ v.shared.appliedNetworkGeneration ∧ ∃ j r, v.rebinds[j]? = some r ∧ gen ≤ r.gen ∧ (gen = 0 → j = i) ∧
    Renews s.shared v.shared r.pc)

theorem Renewing.step (hr : Renewing s v i gen) : Renewing s w i gen := by
  rcases hr with ⟨hgen, hlt, pc, hpc, hwhere⟩ | ⟨hle, j, r, hj, hge, hown, hr⟩
  · by_cases hlt' : w.shared.appliedNetworkGeneration < gen
    · refine .inl ⟨hgen, hlt', ?_⟩
      rcases hs.rebinds_get hpc with ⟨hkept, -⟩ | ⟨pc', hby, hget⟩
      · exact ⟨pc, hkept, hwhere⟩
      · refine ⟨pc', hget, ?_⟩
        generalize w.shared = shared at hby hlt'
        rcases hwhere with rfl | ⟨applied, rfl⟩
        · cases hby with
          | ignored old => exact absurd hlt (UInt64.not_lt.mpr old)
          | loaded => exact .inr ⟨_, rfl⟩
        · cases hby with
          | swapped => exact absurd hlt' (UInt64.lt_irrefl _)
          | raced => exact .inl rfl
    · rcases hs.applied_cases with hsame | ⟨j, hj⟩
      · exact absurd (hsame ▸ hlt) hlt'
      · exact .inr ⟨UInt64.not_lt.mp hlt', j, _, hj, UInt64.not_lt.mp hlt', fun hzero => absurd hzero hgen, trivial⟩
  · obtain ⟨pc, hget, hr'⟩ := Renews.step h hs hj hr
    exact .inr ⟨UInt64.le_trans hle (hs.applied_le h.current), j, _, hget, hge, hown, hr'⟩

end

theorem renewing_run {v : State} (h : Since s v) (hr : Renewing s v i gen)
    (hrun : Run (step n) anyStep v later t) : Renewing s t i gen :=
  (hrun.invariant (P := fun v => Since s v ∧ Renewing s v i gen)
    (fun hv _ hw => ⟨hv.1.step (step_cases hw), hv.2.step hv.1 (step_cases hw)⟩) ⟨h, hr⟩).2

theorem since_called (hc : Current s) (hcall : step n s (.rebind gen) = some call) : Since s call := by
  refine ⟨(step_cases hcall).current hc, (step_cases hcall).ctx_le, fun p hp => ?_⟩
  cases hcall
  obtain ⟨path, hpath, hdated, -⟩ := hc.fresh p hp
  exact ⟨path, hpath, hdated⟩

theorem renewing_called (hcall : step n s (.rebind gen) = some call)
    (hnew : gen = 0 ∨ s.shared.appliedNetworkGeneration < gen) : Renewing s call s.rebinds.length gen := by
  cases hcall
  by_cases hzero : gen = 0
  · subst hzero
    exact .inr ⟨UInt64.zero_le, _, _, getElem?_concat_length, UInt64.le_refl _, fun _ => rfl, trivial⟩
  · refine .inl ⟨hzero, hnew.resolve_left hzero, _, getElem?_concat_length, ?_⟩
    rw [if_neg hzero]
    exact .inl rfl

/-- The generation is applied, and the context is new and every path pooled in `s` is closed or gone, unless another call
of a generation at least as high is still at it. -/
def Renewed (s v : State) (gen : UInt64) : Prop :=
  gen ≤ v.shared.appliedNetworkGeneration ∧
    (s.shared.generationCtx < v.shared.generationCtx ∧ (∀ p ∈ s.shared.paths, p ∈ v.shared.paths →
      ∃ path, v.shared.heap[p]? = some path ∧ path.closed = true) ∨
    gen ≠ 0 ∧ ∃ r ∈ v.rebinds, gen ≤ r.gen ∧ r.pc ≠ .returned)

theorem Renewing.of_returned {v : State} (hr : Renewing s v i gen) (hret : v.rebinds[i]? = some ⟨gen, .returned⟩) :
    Renewed s v gen := by
  rcases hr with ⟨-, -, pc, hpc, hwhere⟩ | ⟨hle, j, r, hj, hge, hown, hr⟩
  · cases hpc.symm.trans hret
    rcases hwhere with hpc | ⟨_, hpc⟩ <;> cases hpc
  · refine ⟨hle, ?_⟩
    by_cases hdone : r.pc = .returned
    · rw [hdone] at hr
      exact .inl ⟨hr.1, fun p hp hv => (hr.2 p hp hv).resolve_left not_mem_nil⟩
    · refine .inr ⟨fun hzero => hdone ?_, r, mem_of_getElem? hj, hge, hdone⟩
      obtain rfl := hown hzero
      cases hj.symm.trans hret
      rfl

theorem rebound_pool (n : ℕ) (before after : List Action) (u s : State)
    (hu : Run (step n) anyStep .initial before u) (hs : Run (step n) anyStep u after s) :
    (u.shared.appliedNetworkGeneration ≤ s.shared.appliedNetworkGeneration ∧
      u.shared.generationCtx ≤ s.shared.generationCtx) ∧
    ((∀ r ∈ s.rebinds, r.pc = .returned) → ∀ p ∈ s.shared.paths, ∃ path, s.shared.heap[p]? = some path ∧
      (path.ctx = s.shared.generationCtx ∨ path.closed = true)) ∧
    (∀ gen, 0 < gen → gen ≤ s.shared.appliedNetworkGeneration → ∀ call, step n s (.rebind gen) = some call →
      ∀ later t t', Run (step n) anyStep call later t → step n t (.rebindStep s.rebinds.length) = some t' →
        t'.shared.paths = t.shared.paths ∧ t'.shared.generationCtx = t.shared.generationCtx) ∧
    ∀ gen, gen = 0 ∨ s.shared.appliedNetworkGeneration < gen → ∀ call, step n s (.rebind gen) = some call →
      ∀ later t, Run (step n) anyStep call later t → t.rebinds[s.rebinds.length]? = some ⟨gen, .returned⟩ →
        Renewed s t gen := by
  obtain ⟨hc, hle⟩ := applied_run (current_run hu) hs
  refine ⟨hle, fun hret p hp => ?_, ?_, ?_⟩
  · obtain ⟨path, hpath, -, hwhy⟩ := hc.fresh p hp
    refine ⟨path, hpath, ?_⟩
    rcases hwhy with hcur | hclosed | ⟨r, hr, ps, hpc, -⟩
    · exact .inl hcur
    · exact .inr hclosed
    · rw [hret r hr] at hpc
      cases hpc
  · intro gen hpos hold call hcall later t t' hlater ht'
    obtain ⟨hct, hst⟩ := stale_run ((step_cases hcall).current hc) (stale_called hcall hpos hold) hlater
    have hshared := (hst.step hct (step_cases ht')).2 rfl
    rw [hshared]
    exact ⟨rfl, rfl⟩
  · intro gen hnew call hcall later t hlater hret
    exact (renewing_run (since_called hc hcall) (renewing_called hcall hnew) hlater).of_returned hret

theorem rebound_pool_closing : ∃ s t,
    exec (step 1) .initial [.launch, .task 0 .go, .task 0 .go, .task 0 .dialed, .task 0 .go, .task 0 .go] = some s ∧
    exec (step 1) s [.rebind 1, .rebindStep 0, .rebindStep 0, .rebindStep 0, .rebindStep 0, .rebindStep 0] = some t ∧
    t.shared.paths = [0] ∧ 1 ≤ t.shared.appliedNetworkGeneration ∧
    s.shared.generationCtx < t.shared.generationCtx ∧ ∃ path, t.shared.heap[0]? = some path ∧ path.closed = true := by
  refine (exists_pair_of_decide (P := fun s t => s.shared.paths = [0] ∧ s.shared.appliedNetworkGeneration = 0 ∧
    s.rebinds = [] ∧ t.shared.paths = [0] ∧ t.rebinds = [⟨1, .returned⟩]) ?_).imp fun s => Exists.imp fun t
      ⟨hs, ht, hpooled, happlied, hnone, hpaths, hrebinds⟩ => ⟨hs, ht, hpaths, ?_⟩
  · decide +kernel
  obtain ⟨hle, ⟨hctx, hclosed⟩ | ⟨-, r, hr, -, hrunning⟩⟩ := (rebound_pool 1 _ [] s s (.of_exec hs) .nil).2.2.2 1
    (.inr (by rw [happlied]; decide)) _ rfl _ t (.of_exec ht) (by rw [hrebinds, hnone]; rfl)
  · exact ⟨hle, hctx, hclosed 0 (by simp [hpooled]) (by simp [hpaths])⟩
  · simp only [hrebinds, mem_singleton] at hr
    exact absurd (congrArg Rebind.pc hr) hrunning

end Hydracore.Parasite.Relay
