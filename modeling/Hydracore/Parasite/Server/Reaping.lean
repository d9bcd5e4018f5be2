import Hydracore.Parasite.Server.Limits

namespace Hydracore.Parasite.Server

open Systems Table Option

/-- `lostAt` is when the session at a place last lost its last lane or pending attach. -/
structure Timed where
  server : State
  lostAt : ℕ → Option ℤ

namespace Timed

def initial (now : ℤ) : Timed := ⟨.initial now, fun _ => none⟩

def busy (t : Timed) (r : ℕ) : Bool := (t.server.table.heap r).attached

def note (t : Timed) (s : State) : Timed :=
  ⟨s, fun r => if t.busy r && !(s.table.heap r).attached then some s.clock else t.lostAt r⟩

def step (o : Options) (t : Timed) (a : Action) : Option Timed := (Server.step o t.server a).map t.note

def spaced (t : Timed) (cutoff : ℤ) (r : ℕ) : Bool :=
  !decide ((t.server.table.heap r).createdAt < cutoff) || (t.lostAt r).all (· ≤ cutoff)

end Timed

def Reaper.pass : Reaper → Option (ℤ × List ℕ)
  | .idle => none
  | .deleting idleCutoff stale | .closing _ idleCutoff stale => some (idleCutoff, stale)

def settled (o : Options) (t : Timed) (a : Action) : Bool :=
  (match a with
    | .tick now order => (order.filterMap t.server.table.sessions.lookup).all (t.spaced (now - o.sessionIdleTimeout))
    | _ => true) &&
  ((t.server.reaper.pass.elim [] Prod.snd).all fun r => !t.busy r || (t.step o a).all (fun t' => t'.busy r))

variable {o : Options} {s s' : State} {t t' : Timed} {a : Action} {r : ℕ}

theorem Timed.step_server (h : t.step o a = some t') : Server.step o t.server a = some t'.server := by
  obtain ⟨s, hs, rfl⟩ := map_eq_some_iff.mp h
  exact hs

theorem Timed.lostAt_step (h : t.step o a = some t') (r : ℕ) :
    t'.lostAt r = if t.busy r && !t'.busy r then some t'.server.clock else t.lostAt r := by
  obtain ⟨s, hs, rfl⟩ := map_eq_some_iff.mp h
  rfl

theorem Stepped.clock_le (hs : Stepped o s a s') : s.clock ≤ s'.clock := by
  cases hs with
  | @passed d => exact Int.le_add_of_nonneg_right (Int.natCast_nonneg d)
  | _ => exact le_rfl

variable {cutoff : ℤ}

theorem Stepped.pass (hs : Stepped o s a s') {stale : List ℕ} (hp : s'.reaper.pass = some (cutoff, stale)) :
    (∃ now order, a = .tick now order ∧ now ≤ s.clock ∧ cutoff = now - o.sessionIdleTimeout ∧
      stale = s.table.staleSessions cutoff order ∧ s'.table = s.table) ∨
    ∃ before, s.reaper.pass = some (cutoff, before) ∧ ∀ r ∈ stale, r ∈ before := by
  cases hs with
  | @ticked now order idle late perm =>
    cases hp
    exact .inl ⟨now, order, rfl, late, rfl, rfl, rfl⟩
  | rested src => cases hp
  | spared src | reaped src =>
    cases hp
    exact .inr ⟨_, by rw [src]; rfl, fun r hr => List.mem_cons_of_mem _ hr⟩
  | reapClosed src =>
    cases hp
    exact .inr ⟨_, by rw [src]; rfl, fun r hr => hr⟩
  | _ => exact .inr ⟨stale, hp, fun r hr => hr⟩

theorem mem_staleSessions {t : Table} {order : List SessionID} (hr : r ∈ t.staleSessions cutoff order) :
    r ∈ order.filterMap t.sessions.lookup ∧ (t.heap r).createdAt < cutoff := by
  obtain ⟨hmem, hold⟩ := List.mem_filter.mp hr
  exact ⟨hmem, (of_decide_eq_true hold).2.2⟩

structure Paced (o : Options) (t : Timed) : Prop where
  sound : Sound o t.server
  elapsed : ∀ cutoff stale, t.server.reaper.pass = some (cutoff, stale) →
    cutoff ≤ t.server.clock - o.sessionIdleTimeout
  collected : ∀ cutoff stale, t.server.reaper.pass = some (cutoff, stale) → ∀ r ∈ stale,
    r < t.server.table.fresh ∧ (t.server.table.heap r).createdAt < cutoff ∧
      (t.busy r = false → (t.lostAt r).all (· ≤ cutoff) = true)

theorem paced_initial (o : Options) (now : ℤ) : Paced o (.initial now) where
  sound := sound_initial o now
  elapsed := by intro cutoff stale hp; cases hp
  collected := by intro cutoff stale hp; cases hp

theorem settled_keeps_busy (hc : settled o t a = true) (hs : t.step o a = some t') {stale : List ℕ}
    (hp : t.server.reaper.pass = some (cutoff, stale)) (hr : r ∈ stale) (hb : t.busy r = true) :
    t'.busy r = true := by
  have hall := (Bool.and_eq_true_iff.mp hc).2
  rw [hp, elim_some, List.all_eq_true] at hall
  simpa [hb, hs] using hall r hr

theorem lostAt_of_not_busy (hs : t.step o a = some t') (hb : t.busy r = false) : t'.lostAt r = t.lostAt r := by
  rw [Timed.lostAt_step hs, hb]
  rfl

theorem Paced.step (h : Paced o t) (hc : settled o t a = true) (hs : t.step o a = some t') : Paced o t' where
  sound := (step_cases (Timed.step_server hs)).sound h.sound
  elapsed := by
    intro cutoff stale hp
    have hstep := step_cases (Timed.step_server hs)
    have hclock := hstep.clock_le
    rcases hstep.pass hp with ⟨now, order, -, hnow, rfl, -⟩ | ⟨before, hp, -⟩
    · omega
    · have := h.elapsed cutoff before hp
      omega
  collected := by
    intro cutoff stale hp r hr
    have hstep := step_cases (Timed.step_server hs)
    have he := hstep.extends h.sound.accounted
    rcases hstep.pass hp with ⟨now, order, rfl, hnow, rfl, rfl, htable⟩ | ⟨before, hp, hsub⟩
    · obtain ⟨hmem, hold⟩ := mem_staleSessions hr
      obtain ⟨id, -, hl⟩ := List.mem_filterMap.mp hmem
      refine ⟨htable ▸ (h.sound.accounted.keyed id r hl).2, htable ▸ hold, fun hb => ?_⟩
      have hspaced := List.all_eq_true.mp (Bool.and_eq_true_iff.mp hc).1 r hmem
      rw [lostAt_of_not_busy hs (by rwa [Timed.busy, ← htable])]
      simpa [Timed.spaced, hold] using hspaced
    · obtain ⟨hlt, hold, hlost⟩ := h.collected cutoff before hp r (hsub r hr)
      refine ⟨hlt.trans_le he.fresh, (he.createdAt_eq hlt).symm ▸ hold, fun hb => ?_⟩
      have hfree : t.busy r = false := by
        by_contra hbusy
        rw [settled_keeps_busy hc hs hp (hsub r hr) (by simpa using hbusy)] at hb
        cases hb
      rw [lostAt_of_not_busy hs hfree]
      exact hlost hfree

theorem lost_after_run {cond : Timed → Action → Prop} {as : List Action} (h : Run (Timed.step o) cond t as t')
    (hbusy : t.busy r = true) : t.server.clock ≤ t'.server.clock ∧
      (t'.busy r = true ∨ ∃ lost, t'.lostAt r = some lost ∧ t.server.clock ≤ lost) := by
  refine h.invariant (P := fun u => t.server.clock ≤ u.server.clock ∧
    (u.busy r = true ∨ ∃ lost, u.lostAt r = some lost ∧ t.server.clock ≤ lost)) ?_ ⟨Int.le_refl _, .inl hbusy⟩
  rintro u a v ⟨hclock, hu⟩ - hv
  have hmono := hclock.trans (step_cases (Timed.step_server hv)).clock_le
  refine ⟨hmono, ?_⟩
  cases hvb : v.busy r with
  | true => exact .inl rfl
  | false =>
    right
    rw [Timed.lostAt_step hv, hvb]
    cases hub : u.busy r with
    | true => exact ⟨_, rfl, hmono⟩
    | false => simpa [hub] using hu

theorem reaped_session_idle (o : Options) (now : ℤ) (before after : List Action) (u t : Timed)
    (hu : Run (Timed.step o) (settled o · ·) (.initial now) before u)
    (ht : Run (Timed.step o) (settled o · ·) u after t) (cutoff : ℤ) (r : ℕ) (stale : List ℕ)
    (hreaper : t.server.reaper = .deleting cutoff (r :: stale))
    (hdeleted : (t.server.table.deleteIdleSession (t.server.table.heap r).id r cutoff).isSome) :
    (t.server.table.heap r).createdAt < t.server.clock - o.sessionIdleTimeout ∧
      ((u.server.table.heap r).attached = true → u.server.clock ≤ t.server.clock - o.sessionIdleTimeout) := by
  have hpu : Paced o u := hu.invariant .step (paced_initial o now)
  have hpt : Paced o t := ht.invariant .step hpu
  have hpass : t.server.reaper.pass = some (cutoff, r :: stale) := by rw [hreaper]; rfl
  have hcut := hpt.elapsed cutoff _ hpass
  obtain ⟨-, hold, hspaced⟩ := hpt.collected cutoff _ hpass r (List.mem_cons_self ..)
  refine ⟨by omega, fun hatt => ?_⟩
  obtain ⟨table, htable⟩ := Option.isSome_iff_exists.mp hdeleted
  obtain ⟨-, hpend, hpaths, -⟩ := deleteUnattached_some htable
  have hfree : t.busy r = false := by
    simp [Timed.busy, Session.attached, SessionRelay.activePaths, hpend, hpaths]
  obtain ⟨-, hbusy | ⟨lost, hlost, hle⟩⟩ := lost_after_run ht hatt
  · rw [hfree] at hbusy
    cases hbusy
  · have hlast := hspaced hfree
    simp only [hlost, Option.all_some, decide_eq_true_eq] at hlast
    omega

theorem reaped_session_idle_once : ∃ u t,
    execWhile (Timed.step soleUser) (settled soleUser) (.initial 0) (opens 0 1 [] firstGeneration) = some u ∧
    execWhile (Timed.step soleUser) (settled soleUser) u
      [.conn 0 .drop, .watch 0 0, .pass 300000000001, .tick 300000000001 [Vector.replicate 16 1]] = some t ∧
    (u.server.table.heap 0).attached = true ∧ u.server.clock ≤ t.server.clock - 300000000000 := by
  refine (exists_pair_of_decide (P := fun u t => (u.server.table.heap 0).attached = true ∧
    t.server.reaper = .deleting 1 [0] ∧ (t.server.table.deleteIdleSession (t.server.table.heap 0).id 0 1).isSome)
    ?_).imp fun u => Exists.imp fun t ⟨hu, ht, hatt, hreaper, hdel⟩ => ⟨hu, ht, hatt, ?_⟩
  · decide +kernel
  · have hidle := reaped_session_idle soleUser 0 _ _ u t (.of_execWhile hu) (.of_execWhile ht) 1 0 [] hreaper hdel
    exact hidle.2 hatt

def oneLaneLeft : List Action :=
  opens 0 1 [] firstGeneration ++
    [Action.accept, .conn 1 .take, .conn 1 (.read (.request { soleRequest 1 with workerID := 1 })),
      .conn 1 (.enter [Vector.replicate 16 1] none), .conn 1 .join, .conn 1 (.ack true), .conn 1 .attach,
      .conn 1 .release, .conn 0 .drop, .watch 0 0, .conn 0 .leave, .conn 0 .unattach, .pass 300000000001]

theorem reaped_after_lane_blip : ∃ u s, exec (step soleUser) (.initial 0) oneLaneLeft = some u ∧
    exec (step soleUser) u [.conn 1 .drop, .watch 1 0, .tick 300000000001 [Vector.replicate 16 1]] = some s ∧
    (u.table.heap 0).relay.activePaths = 1 ∧ ¬ u.clock ≤ s.clock - soleUser.sessionIdleTimeout ∧
    s.reaper = .deleting 1 [0] ∧ (s.table.deleteIdleSession (s.table.heap 0).id 0 1).isSome := by
  apply exists_pair_of_decide
  decide +kernel

end Hydracore.Parasite.Server
