import Hydracore.Daemon.RuntimeEvents

namespace Hydracore.Daemon

open Systems Option Function Stage Snapshot

variable {γ χ τ η : Type}

theorem Snapshot.foldl_change {α : Type} [DecidableEq α] {a b : α} {f : α → Snapshot γ χ τ η} {e : Event γ χ τ η}
    (h : (f a).apply e = f b) : (if a ≠ b then [e] else []).foldl apply (f a) = f b := by
  split_ifs with hsame
  · exact h
  · rw [not_ne_iff.mp hsame]
    rfl

theorem foldl_eventsBetween [DecidableEq γ] [DecidableEq χ] [DecidableEq τ] [DecidableEq η]
    (previous current : Snapshot γ χ τ η) :
    (eventsBetween previous current).foldl apply previous = current := by
  obtain ⟨service, startedAt, groups, clashMode, sessions, health⟩ := previous
  obtain ⟨service', startedAt', groups', clashMode', sessions', health'⟩ := current
  have hservice : (if service ≠ service' ∨ startedAt ≠ startedAt' then [Event.service service' startedAt'] else []).foldl
      apply ⟨service, startedAt, groups, clashMode, sessions, health⟩ =
        ⟨service', startedAt', groups, clashMode, sessions, health⟩ := by
    split_ifs with hsame
    · rfl
    · push Not at hsame
      rw [hsame.1, hsame.2]
      rfl
  simp only [eventsBetween, List.foldl_append]
  rw [hservice, foldl_change (f := fun groups => ⟨service', startedAt', groups, clashMode, sessions, health⟩),
    foldl_change (f := fun clashMode => ⟨service', startedAt', groups', clashMode, sessions, health⟩),
    foldl_change (f := fun sessions => ⟨service', startedAt', groups', clashMode', sessions, health⟩),
    foldl_change]
  all_goals rfl

def Stage.rank : Stage → ℕ
  | arm => 0
  | service => 1
  | sessions => 2
  | health => 3
  | groups => 4
  | done => 5

namespace Service

variable {s s' : Service γ χ τ η} {kind : Kind} {r : Reading γ χ τ η}

section

variable (s : Service γ χ τ η)

def Told (kind : Kind) : Prop := (s.notices kind).pending = true ∨ 0 < s.owed kind

def ServiceFresh (service : Status) (startedAt : ℕ) : Prop :=
  (service = s.status.shown ∧ startedAt = s.startedAt) ∨ s.Told .service

def GroupsFresh (groups : List γ) : Prop :=
  groups = s.current.groups ∨ s.Told .service ∨ (s.isStarted = true ∧ s.Told .urlTest)

def ClashModeFresh (clashMode : Option χ) : Prop :=
  clashMode = s.current.clashMode ∨ s.Told .service ∨ (s.isStarted = true ∧ s.Told .clashMode)

def SessionsFresh (sessions : List τ) : Prop := sessions = s.sessions ∨ s.Told .session

def HealthFresh (health : η) : Prop := health = s.health ∨ s.healthClosed = true

def CacheFresh (groups : List γ) : Prop :=
  s.startedBefore = true → s.isStarted = true → groups = s.current.groups ∨ s.Told .urlTest

end

structure Fresh (s : Service γ χ τ η) (snapshot : Snapshot γ χ τ η) : Prop where
  service : s.ServiceFresh snapshot.service snapshot.startedAt
  groups : s.GroupsFresh snapshot.groups
  clashMode : s.ClashModeFresh snapshot.clashMode
  sessions : s.SessionsFresh snapshot.sessions
  health : s.HealthFresh snapshot.health
  cache : s.CacheFresh snapshot.groups

structure Underway (s : Service γ χ τ η) (r : Reading γ χ τ η) : Prop where
  fresh_cache : r.round ≠ .first → r.cache = none
  unread : r.round = .reset → r.stage.rank < 2 → s.startedBefore = false
  service : 2 ≤ r.stage.rank → s.ServiceFresh r.snapshot.service r.snapshot.startedAt
  seen : 2 ≤ r.stage.rank → (r.snapshot.service = .started ↔ r.isStarted = true)
  stopped : 2 ≤ r.stage.rank → s.startedBefore = true → r.isStarted = false → s.isStarted = false
  blank : 2 ≤ r.stage.rank → r.stage.rank < 5 → r.snapshot.groups = [] ∧ r.snapshot.clashMode = none
  sessions : 3 ≤ r.stage.rank → s.SessionsFresh r.snapshot.sessions
  health : 4 ≤ r.stage.rank → s.HealthFresh r.snapshot.health
  cache : r.stage.rank < 5 → ∀ groups, r.cache = some groups → s.CacheFresh groups
  groups : r.stage.rank = 5 → (r.round = .first ∧ r.isStarted ≠ s.startedBefore) ∨ s.GroupsFresh r.snapshot.groups
  clashMode : r.stage.rank = 5 → s.ClashModeFresh r.snapshot.clashMode
  kept : r.stage.rank = 5 → s.CacheFresh r.snapshot.groups

def StreamSound (s : Service γ χ τ η) : Prop :=
  match s.phase with
  | .absent => s.startedBefore = false ∧ s.sent = []
  | .reading r => s.Underway r ∧ (r.round = .reset ∨ s.view = some s.previous)
  | .sending message => s.Fresh s.previous ∧ message.fold s.view = some s.previous
  | .waiting => s.Fresh s.previous ∧ s.view = some s.previous

structure LifecycleSound (s : Service γ χ τ η) : Prop where
  busy : s.lifecycle ≠ .free → s.status ≠ .started
  running : s.lifecycle = .running → s.runtime.isSome = true
  started : s.status = .started → s.runtime.isSome = true

structure Sound (s : Service γ χ τ η) : Prop where
  lifecycle : LifecycleSound s
  stream : StreamSound s

theorem LifecycleSound.isStarted_iff (h : LifecycleSound s) : s.isStarted = true ↔ s.status = .started := by
  rw [isStarted, Bool.and_eq_true, decide_eq_true_eq]
  exact ⟨And.left, fun hstatus => ⟨hstatus, h.started hstatus⟩⟩

theorem Status.shown_eq_started {status : Status} : status.shown = .started ↔ status = .started := by
  cases status with
  | fatal message =>
    rw [Status.shown]
    split_ifs <;> simp
  | _ => rfl

structure Advances (s s' : Service γ χ τ η) : Prop where
  phase : s'.phase = s.phase
  previous : s'.previous = s.previous
  startedBefore : s'.startedBefore = s.startedBefore
  sent : s'.sent = s.sent
  told : ∀ kind, s.Told kind → s'.Told kind ∨ (s'.isStarted = false ∧ (kind = .urlTest ∨ kind = .clashMode))
  service : (s'.status.shown = s.status.shown ∧ s'.startedAt = s.startedAt ∧ s'.isStarted = s.isStarted) ∨
    s'.Told .service
  sessions : s'.sessions = s.sessions ∨ s'.Told .session
  health : (s'.health = s.health ∧ s'.healthClosed = s.healthClosed) ∨ s'.healthClosed = true
  groups : s'.current.groups = s.current.groups ∨ s'.Told .service ∨ (s'.isStarted = true ∧ s'.Told .urlTest)
  clashMode : s'.current.clashMode = s.current.clashMode ∨ s'.Told .service ∨
    (s'.isStarted = true ∧ s'.Told .clashMode)
  unnoticed : s'.isStarted = true → s.startedBefore = true →
    s.isStarted = true ∧ (s'.current.groups = s.current.groups ∨ s'.Told .urlTest)

variable {groups : List γ} {clashMode : Option χ}

namespace Advances

variable {snapshot : Snapshot γ χ τ η}

section

variable (h : Advances s s')
include h

theorem told_kept (hurlTest : kind ≠ .urlTest) (hclashMode : kind ≠ .clashMode) (ht : s.Told kind) : s'.Told kind :=
  (h.told kind ht).resolve_right fun hlost => hlost.2.elim hurlTest hclashMode

theorem told_of_started (hstarted : s'.isStarted = true) (ht : s.Told kind) : s'.Told kind := by
  rcases h.told kind ht with ht | ⟨hnot, -⟩
  · exact ht
  · rw [hstarted] at hnot
    cases hnot

theorem told_by_instance (hstarted : s.isStarted = true) (ht : s.Told kind) :
    s'.Told .service ∨ (s'.isStarted = true ∧ s'.Told kind) := by
  by_cases hstarted' : s'.isStarted = true
  · exact .inr ⟨hstarted', h.told_of_started hstarted' ht⟩
  · rcases h.service with ⟨-, -, hsame⟩ | htold
    · rw [hsame, hstarted] at hstarted'
      exact absurd rfl hstarted'
    · exact .inl htold

theorem serviceFresh {service : Status} {startedAt : ℕ} (hf : s.ServiceFresh service startedAt) :
    s'.ServiceFresh service startedAt := by
  rcases hf with ⟨hservice, hstartedAt⟩ | htold
  · rcases h.service with ⟨hshown, htime, -⟩ | htold
    · exact .inl ⟨hservice.trans hshown.symm, hstartedAt.trans htime.symm⟩
    · exact .inr htold
  · exact .inr (h.told_kept nofun nofun htold)

theorem fresh_by_instance {α : Type} {shown current current' : α}
    (hcurrent : current' = current ∨ s'.Told .service ∨ (s'.isStarted = true ∧ s'.Told kind))
    (hf : shown = current ∨ s.Told .service ∨ (s.isStarted = true ∧ s.Told kind)) :
    shown = current' ∨ s'.Told .service ∨ (s'.isStarted = true ∧ s'.Told kind) := by
  rcases hf with hshown | htold | ⟨hstarted, htold⟩
  · exact hcurrent.imp_left fun hsame => hshown.trans hsame.symm
  · exact .inr (.inl (h.told_kept nofun nofun htold))
  · exact .inr (h.told_by_instance hstarted htold)

theorem groupsFresh (hf : s.GroupsFresh groups) : s'.GroupsFresh groups := h.fresh_by_instance h.groups hf

theorem clashModeFresh (hf : s.ClashModeFresh clashMode) : s'.ClashModeFresh clashMode :=
  h.fresh_by_instance h.clashMode hf

theorem sessionsFresh {sessions : List τ} (hf : s.SessionsFresh sessions) : s'.SessionsFresh sessions := by
  rcases hf with hsessions | htold
  · exact h.sessions.imp_left fun hsame => hsessions.trans hsame.symm
  · exact .inr (h.told_kept nofun nofun htold)

theorem healthFresh {health : η} (hf : s.HealthFresh health) : s'.HealthFresh health := by
  rcases h.health with ⟨hsame, hclosed⟩ | hclosed
  · rw [HealthFresh, hsame, hclosed]
    exact hf
  · exact .inr hclosed

theorem cacheFresh (hf : s.CacheFresh groups) : s'.CacheFresh groups := by
  intro hbefore hstarted
  rw [h.startedBefore] at hbefore
  obtain ⟨hold, hsame⟩ := h.unnoticed hstarted hbefore
  rcases hf hbefore hold with hgroups | htold
  · exact hsame.imp_left fun hsame => hgroups.trans hsame.symm
  · exact .inr (h.told_of_started hstarted htold)

theorem fresh (hf : s.Fresh snapshot) : s'.Fresh snapshot where
  service := h.serviceFresh hf.service
  groups := h.groupsFresh hf.groups
  clashMode := h.clashModeFresh hf.clashMode
  sessions := h.sessionsFresh hf.sessions
  health := h.healthFresh hf.health
  cache := h.cacheFresh hf.cache

theorem underway (hf : s.Underway r) : s'.Underway r where
  fresh_cache := hf.fresh_cache
  unread := h.startedBefore ▸ hf.unread
  service hrank := h.serviceFresh (hf.service hrank)
  seen := hf.seen
  stopped hrank hbefore hnot := by
    rw [h.startedBefore] at hbefore
    by_contra hstarted
    have hold := (h.unnoticed (Bool.of_not_eq_false hstarted) hbefore).1
    rw [hf.stopped hrank hbefore hnot] at hold
    cases hold
  blank := hf.blank
  sessions hrank := h.sessionsFresh (hf.sessions hrank)
  health hrank := h.healthFresh (hf.health hrank)
  cache hrank groups hgroups := h.cacheFresh (hf.cache hrank groups hgroups)
  groups hrank := h.startedBefore ▸ (hf.groups hrank).imp_right h.groupsFresh
  clashMode hrank := h.clashModeFresh (hf.clashMode hrank)
  kept hrank := h.cacheFresh (hf.kept hrank)

theorem streamSound (hf : s.StreamSound) : s'.StreamSound := by
  have hview : s'.view = s.view := congrArg (List.foldl Message.fold none) h.sent
  unfold StreamSound at hf ⊢
  rw [h.phase, h.previous, h.startedBefore, h.sent, hview]
  cases hphase : s.phase with
  | absent => simpa only [hphase] using hf
  | reading r =>
    simp only [hphase] at hf ⊢
    exact ⟨h.underway hf.1, hf.2⟩
  | sending message | waiting =>
    simp only [hphase] at hf ⊢
    exact ⟨h.fresh hf.1, hf.2⟩

end

end Advances

variable {runtime : Instance γ χ} {n : Notices}

section ServiceSteps

theorem pending_emit : ((s.emit kind).notices kind).pending = true := by
  simp only [emit, update_self]
  apply Notices.pending_emit
  cases kind <;> decide

theorem Told.update {other : Kind} (h : s.Told kind) (hn : n.pending = true) :
    Told { s with notices := update s.notices other n } kind := by
  by_cases heq : kind = other
  · subst heq
    left
    simpa only [update_self] using hn
  · simpa only [Told, update_of_ne heq] using h

theorem Told.emit (h : s.Told kind) (other : Kind) : (s.emit other).Told kind := by
  apply h.update
  apply Notices.pending_emit
  cases other <;> decide

theorem Told.congr (h : s.Told kind) (hnotices : s'.notices = s.notices) (howed : s'.owed = s.owed) : s'.Told kind := by
  unfold Told at h ⊢
  rw [hnotices, howed]
  exact h

theorem current_groups_of_not (h : s.isStarted = false) : s.current.groups = [] := by
  simp [current, h]

theorem current_clashMode_of_not (h : s.isStarted = false) : s.current.clashMode = none := by
  simp [current, h]

theorem advances_of_same (hphase : s'.phase = s.phase) (hprevious : s'.previous = s.previous)
    (hbefore : s'.startedBefore = s.startedBefore) (hsent : s'.sent = s.sent)
    (htold : ∀ kind, s.Told kind → s'.Told kind ∨ (s'.isStarted = false ∧ (kind = .urlTest ∨ kind = .clashMode)))
    (hclosed : s'.healthClosed = s.healthClosed) (hstarted : s'.isStarted = s.isStarted)
    (hcurrent : s'.current = s.current) : Advances s s' where
  phase := hphase
  previous := hprevious
  startedBefore := hbefore
  sent := hsent
  told := htold
  service := .inl ⟨congrArg Snapshot.service hcurrent, congrArg Snapshot.startedAt hcurrent, hstarted⟩
  sessions := .inl (congrArg Snapshot.sessions hcurrent)
  health := .inl ⟨congrArg Snapshot.health hcurrent, hclosed⟩
  groups := .inl (congrArg groups hcurrent)
  clashMode := .inl (congrArg clashMode hcurrent)
  unnoticed hnow _ := ⟨hstarted ▸ hnow, .inl (congrArg groups hcurrent)⟩

theorem isStarted_of_status_ne (h : s.status ≠ .started) : s.isStarted = false := by
  simp [isStarted, h]

theorem current_of_not_started (hstarted : s.isStarted = false) (hstarted' : s'.isStarted = false)
    (hstatus : s'.status = s.status) (htime : s'.startedAt = s.startedAt) (hsessions : s'.sessions = s.sessions)
    (hhealth : s'.health = s.health) : s'.current = s.current := by
  simp [current, hstarted, hstarted', hstatus, htime, hsessions, hhealth]

theorem advances_created (h : LifecycleSound s) (hbusy : s.lifecycle = .creating) (groups : List γ)
    (clashMode : Option χ) : Advances s (s.created groups clashMode) := by
  have hstatus : s.status ≠ .started := h.busy (by simp [hbusy])
  have hnot : (s.created groups clashMode).isStarted = false := isStarted_of_status_ne hstatus
  have hnot' : s.isStarted = false := isStarted_of_status_ne hstatus
  refine advances_of_same rfl rfl rfl rfl (fun kind ht => ?_) rfl (hnot.trans hnot'.symm)
    (current_of_not_started hnot' hnot rfl rfl rfl rfl)
  cases kind with
  | urlTest => exact .inr ⟨hnot, .inl rfl⟩
  | clashMode => exact .inr ⟨hnot, .inr rfl⟩
  | service | session => exact .inl ht

theorem told_owe : (s.owe kind).Told kind := by
  right
  simp only [owe, update_self]
  exact Nat.succ_pos _

theorem Told.owe (h : s.Told kind) (other : Kind) : (s.owe other).Told kind := by
  by_cases heq : kind = other
  · subst heq
    exact told_owe
  · simpa only [Told, Service.owe, update_of_ne heq] using h

theorem advances_change {owed : Kind → ℕ} {runtime' : Instance γ χ} (hruntime : s.runtime = some runtime)
    (hs : s' = { s with owed := owed, runtime := some runtime' }) (hkept : ∀ kind, s.Told kind → s'.Told kind)
    (hgroups : runtime'.groups = runtime.groups ∨ s.isStarted = false ∨ s'.Told .urlTest)
    (hclashMode : runtime'.clashMode = runtime.clashMode ∨ s'.Told .clashMode) : Advances s s' := by
  subst hs
  have hstarted : isStarted { s with owed := owed, runtime := some runtime' } = s.isStarted := by
    simp [isStarted, hruntime]
  cases hnow : s.isStarted with
  | false =>
    exact advances_of_same rfl rfl rfl rfl (fun kind ht => .inl (hkept kind ht)) rfl hstarted
      (current_of_not_started hnow (hstarted.trans hnow) rfl rfl rfl rfl)
  | true =>
    have hread : (current { s with owed := owed, runtime := some runtime' }).groups = s.current.groups ∨
        Told { s with owed := owed, runtime := some runtime' } .urlTest := by
      rcases hgroups with hsame | hnot | htold
      · simp [current, hstarted, hruntime, hsame]
      · rw [hnow] at hnot
        cases hnot
      · exact .inr htold
    refine ⟨rfl, rfl, rfl, rfl, fun kind ht => .inl (hkept kind ht), .inl ⟨rfl, rfl, hstarted⟩, .inl rfl,
      .inl ⟨rfl, rfl⟩, hread.imp_right fun htold => .inr ⟨hstarted.trans hnow, htold⟩,
      hclashMode.imp (fun hsame => ?_) fun htold => .inr ⟨hstarted.trans hnow, htold⟩, fun _ _ => ⟨hnow, hread⟩⟩
    simp [current, hstarted, hruntime, hsame]

theorem advances_changeSessions (sessions : List τ) : Advances s { s.owe .session with sessions := sessions } :=
  ⟨rfl, rfl, rfl, rfl, fun _ ht => .inl (ht.owe .session), .inl ⟨rfl, rfl, rfl⟩, .inr ((told_owe (s := s)).congr rfl rfl),
    .inl ⟨rfl, rfl⟩,
    .inl rfl, .inl rfl, fun hnow _ => ⟨hnow, .inl rfl⟩⟩

theorem advances_changeHealth (health : η) : Advances s { s with health := health, healthClosed := true } :=
  ⟨rfl, rfl, rfl, rfl, fun _ => .inl, .inl ⟨rfl, rfl, rfl⟩, .inl rfl, .inr rfl, .inl rfl, .inl rfl,
    fun hnow _ => ⟨hnow, .inl rfl⟩⟩

theorem advances_announce (other : Kind) : Advances s (s.announce other) := by
  refine advances_of_same rfl rfl rfl rfl (fun kind ht => .inl ?_) rfl rfl rfl
  by_cases heq : kind = other
  · subst heq
    exact .inl pending_emit
  · simpa only [Told, announce, emit, update_of_ne heq] using ht

theorem advances_of_pending {other : Kind} (hn : n.pending = true) :
    Advances s { s with notices := update s.notices other n } :=
  advances_of_same rfl rfl rfl rfl (fun _ ht => .inl (ht.update hn)) rfl rfl rfl

end ServiceSteps

variable {snapshot : Snapshot γ χ τ η}

section StreamSteps

theorem LifecycleSound.congr (h : LifecycleSound s) (hstatus : s'.status = s.status) (hruntime : s'.runtime = s.runtime)
    (hlifecycle : s'.lifecycle = s.lifecycle) : LifecycleSound s' := by
  refine ⟨?_, ?_, ?_⟩
  · rw [hlifecycle, hstatus]
    exact h.busy
  · rw [hlifecycle, hruntime]
    exact h.running
  · rw [hstatus, hruntime]
    exact h.started

theorem underway_new (hstage : r.stage.rank < 2) (hcache : r.round ≠ .first → r.cache = none)
    (hreset : r.round = .reset → s.startedBefore = false)
    (hfresh : ∀ groups, r.cache = some groups → s.CacheFresh groups) : s.Underway r := by
  refine ⟨hcache, fun hround _ => hreset hround, ?_, ?_, ?_, ?_, ?_, ?_, fun _ => hfresh, ?_, ?_, ?_⟩
  all_goals
    intro hrank
    omega

section

variable (h : s.Underway r)
include h

theorem Underway.read_arm (hstage : r.stage = .arm) :
    Underway { s with healthClosed := false, phase := .reading { r with stage := .service } }
      { r with stage := .service } :=
  underway_new Nat.one_lt_two h.fresh_cache (fun hround => h.unread hround (by simp [hstage, rank]))
    (h.cache (by simp [hstage, rank]))

theorem Underway.read_service (hlifecycle : LifecycleSound s) (hstage : r.stage = .service)
    (hs : s.read r = some s') : ∃ r', s'.phase = .reading r' ∧ r'.round = r.round ∧ s'.Underway r' := by
  rw [read, hstage] at hs
  cases hs
  refine ⟨_, rfl, rfl, ⟨h.fresh_cache, by simp [rank], fun _ => .inl ⟨rfl, rfl⟩, fun _ => ?_, fun _ _ hnot => hnot,
    fun _ _ => ⟨rfl, rfl⟩, by simp [rank], by simp [rank], fun _ groups hgroups => ?_, ?_, ?_, ?_⟩⟩
  · exact Status.shown_eq_started.trans hlifecycle.isStarted_iff.symm
  · intro hbefore hstarted
    by_cases hround : r.round = .reset
    · have hnone := h.fresh_cache (by simp [hround])
      rw [hnone] at hgroups
      cases hgroups
    · simp only [hround, ↓reduceIte] at hbefore
      exact h.cache (by simp [hstage, rank]) groups hgroups hbefore hstarted
  all_goals simp [rank]

theorem Underway.read_sessions (hstage : r.stage = .sessions) (phase : Phase γ χ τ η) :
    Underway { s with phase := phase }
      { r with stage := .health, snapshot := { r.snapshot with sessions := s.sessions } } := by
  have hrank : r.stage.rank = 2 := by rw [hstage, rank]
  refine ⟨h.fresh_cache, ?_, fun _ => h.service (by omega), fun _ => h.seen (by omega), fun _ => h.stopped (by omega),
    fun _ _ => h.blank (by omega) (by omega), fun _ => .inl rfl, ?_, fun _ => h.cache (by omega), ?_, ?_, ?_⟩
  all_goals simp [rank]

theorem Underway.read_health (hstage : r.stage = .health) (phase : Phase γ χ τ η) :
    Underway { s with phase := phase }
      { r with stage := .groups, snapshot := { r.snapshot with health := s.health } } := by
  have hrank : r.stage.rank = 3 := by rw [hstage, rank]
  refine ⟨h.fresh_cache, ?_, fun _ => h.service (by omega), fun _ => h.seen (by omega), fun _ => h.stopped (by omega),
    fun _ _ => h.blank (by omega) (by omega), fun _ => h.sessions (by omega), fun _ => .inl rfl,
    fun _ => h.cache (by omega), ?_, ?_, ?_⟩
  all_goals simp [rank]

theorem Underway.complete (hstage : r.stage = .groups) (phase : Phase γ χ τ η)
    (hgroups : (r.round = .first ∧ r.isStarted ≠ s.startedBefore) ∨ s.GroupsFresh groups)
    (hclashMode : s.ClashModeFresh clashMode) (hkept : s.CacheFresh groups) : Underway { s with phase := phase }
      { r with stage := .done, snapshot := { r.snapshot with groups := groups, clashMode := clashMode } } := by
  have hrank : r.stage.rank = 4 := by rw [hstage, rank]
  refine ⟨h.fresh_cache, ?_, fun _ => h.service (by omega), fun _ => h.seen (by omega), fun _ => h.stopped (by omega),
    ?_, fun _ => h.sessions (by omega), fun _ => h.health (by omega), ?_, fun _ => hgroups, fun _ => hclashMode,
    fun _ => hkept⟩
  all_goals simp [rank]

theorem Underway.told_of_changed (hlifecycle : LifecycleSound s) (hrank : 2 ≤ r.stage.rank)
    (hchanged : r.isStarted ≠ s.isStarted) : s.Told .service := by
  rcases h.service hrank with ⟨hsame, -⟩ | htold
  · have hiff : r.isStarted = true ↔ s.isStarted = true := by
      rw [← h.seen hrank, hsame, Status.shown_eq_started, hlifecycle.isStarted_iff]
    exact absurd (Bool.eq_iff_iff.mpr hiff) hchanged
  · exact htold

theorem Underway.read_groups (hlifecycle : LifecycleSound s) (hstage : r.stage = .groups)
    (hs : s.read r = some s') : ∃ r', s'.phase = .reading r' ∧ r'.round = r.round ∧ s'.Underway r' := by
  have hrank : r.stage.rank = 4 := by rw [hstage, rank]
  rw [read, hstage] at hs
  simp only at hs
  by_cases hseen : r.isStarted = true
  · rw [if_pos hseen] at hs
    by_cases hstatus : s.status = .started
    · rw [if_pos hstatus] at hs
      have hstarted : s.isStarted = true := hlifecycle.isStarted_iff.mpr hstatus
      split at hs
      · next hnone =>
        have hsome := hlifecycle.started hstatus
        rw [hnone] at hsome
        cases hsome
      next runtime hruntime =>
      cases hs
      have hcurrent : s.current.groups = runtime.groups := by simp [current, hstarted, hruntime]
      have hmode : s.current.clashMode = runtime.clashMode := by simp [current, hstarted, hruntime]
      have hkept : s.CacheFresh (r.cache.getD runtime.groups) := by
        cases hcache : r.cache with
        | none => exact fun _ _ => .inl hcurrent.symm
        | some groups => exact h.cache (by omega) groups hcache
      refine ⟨_, rfl, rfl, h.complete hstage _ ?_ (.inl hmode.symm) hkept⟩
      by_cases hbefore : s.startedBefore = true
      · -- the groups of the last snapshot are those of the instance or will be read again
        right
        rcases hkept hbefore hstarted with hsame | htold
        · exact .inl hsame
        · exact .inr (.inr ⟨hstarted, htold⟩)
      · cases hcache : r.cache with
        | none => exact .inr (.inl hcurrent.symm)
        | some groups =>
          left
          refine ⟨?_, ?_⟩
          · by_contra hround
            rw [h.fresh_cache hround] at hcache
            cases hcache
          · rw [hseen]
            exact Ne.symm hbefore
    · have hnot : s.isStarted = false := isStarted_of_status_ne hstatus
      have htold : s.Told .service := h.told_of_changed hlifecycle (by omega) (by simp [hseen, hnot])
      rw [if_neg hstatus] at hs
      cases hs
      refine ⟨_, rfl, rfl, ?_⟩
      refine h.complete hstage _ (.inr (.inr (.inl htold))) (.inr (.inl htold)) fun _ hstarted => ?_
      rw [hnot] at hstarted
      cases hstarted
  · rw [if_neg hseen] at hs
    cases hs
    obtain ⟨hgroups, hclashMode⟩ := h.blank (by omega) (by omega)
    have hunseen : r.isStarted = false := Bool.eq_false_iff.mpr hseen
    by_cases hstarted : s.isStarted = true
    · have htold : s.Told .service := h.told_of_changed hlifecycle (by omega) (by simp [hunseen, hstarted])
      refine ⟨_, rfl, rfl, h.complete hstage _ (.inr (.inr (.inl htold))) (.inr (.inl htold)) fun hbefore _ => ?_⟩
      have hnot := h.stopped (by omega) hbefore hunseen
      rw [hstarted] at hnot
      cases hnot
    · have hnot : s.isStarted = false := Bool.eq_false_iff.mpr hstarted
      refine ⟨_, rfl, rfl, h.complete hstage _ (.inr (.inl ?_)) (.inl ?_) fun _ hnow => absurd hnow hstarted⟩
      · rw [hgroups, current_groups_of_not hnot]
      · rw [hclashMode, current_clashMode_of_not hnot]

end

theorem read_keeps (hs : s.read r = some s') : s'.status = s.status ∧ s'.runtime = s.runtime ∧
    s'.lifecycle = s.lifecycle ∧ s'.previous = s.previous ∧ s'.sent = s.sent := by
  unfold read at hs
  split at hs
  case h_5 =>
    split at hs
    · split at hs <;> cases hs <;> exact ⟨rfl, rfl, rfl, rfl, rfl⟩
    · cases hs
      exact ⟨rfl, rfl, rfl, rfl, rfl⟩
  all_goals cases hs
  all_goals exact ⟨rfl, rfl, rfl, rfl, rfl⟩

theorem Underway.read (h : s.Underway r) (hlifecycle : LifecycleSound s) (hs : s.read r = some s') :
    ∃ r', s'.phase = .reading r' ∧ r'.round = r.round ∧ s'.Underway r' := by
  cases hstage : r.stage with
  | arm =>
    rw [Service.read, hstage] at hs
    cases hs
    exact ⟨_, rfl, rfl, h.read_arm hstage⟩
  | service => exact h.read_service hlifecycle hstage hs
  | sessions =>
    rw [Service.read, hstage] at hs
    cases hs
    exact ⟨_, rfl, rfl, h.read_sessions hstage _⟩
  | health =>
    rw [Service.read, hstage] at hs
    cases hs
    exact ⟨_, rfl, rfl, h.read_health hstage _⟩
  | groups => exact h.read_groups hlifecycle hstage hs
  | done =>
    rw [Service.read, hstage] at hs
    cases hs

theorem Sound.read (h : Sound s) (hphase : s.phase = .reading r) (hs : s.read r = some s') : Sound s' := by
  obtain ⟨hstatus, hruntime, hlifecycle, hprevious, hsent⟩ := read_keeps hs
  have hstream := h.stream
  simp only [StreamSound, hphase] at hstream
  obtain ⟨r', hphase', hround, hunderway⟩ := hstream.1.read h.lifecycle hs
  refine ⟨h.lifecycle.congr hstatus hruntime hlifecycle, ?_⟩
  simp only [StreamSound, hphase', hround, hprevious]
  refine ⟨hunderway, hstream.2.imp_right fun hview => ?_⟩
  rw [view, hsent]
  exact hview

theorem Underway.fresh (h : s.Underway r) (hstage : r.stage = .done)
    (hgroups : ¬(r.round = .first ∧ r.isStarted ≠ s.startedBefore)) : s.Fresh r.snapshot := by
  have hrank : r.stage.rank = 5 := by rw [hstage, rank]
  exact {
    service := h.service (by omega)
    groups := (h.groups hrank).resolve_left hgroups
    clashMode := h.clashMode hrank
    sessions := h.sessions (by omega)
    health := h.health (by omega)
    cache := h.kept hrank }

section Rounds

variable [DecidableEq γ] [DecidableEq χ] [DecidableEq τ] [DecidableEq η]

theorem streamSound_commit (h : s.Fresh snapshot) (hview : s.view = some s.previous) :
    (s.commit snapshot).StreamSound := by
  have hfresh : (s.commit snapshot).Fresh snapshot := ⟨h.service, h.groups, h.clashMode, h.sessions, h.health, h.cache⟩
  have hview' : (s.commit snapshot).view = some s.previous := hview
  have hfold := foldl_eventsBetween s.previous snapshot
  by_cases hempty : eventsBetween s.previous snapshot = []
  · rw [hempty, List.foldl_nil] at hfold
    have hphase : (s.commit snapshot).phase = .waiting := if_pos hempty
    simp only [StreamSound, hphase]
    exact ⟨hfresh, by rw [hview', hfold]; rfl⟩
  · have hphase : (s.commit snapshot).phase = .sending (.events (eventsBetween s.previous snapshot)) := if_neg hempty
    simp only [StreamSound, hphase]
    refine ⟨hfresh, ?_⟩
    rw [hview', Message.fold, map_some, hfold]
    rfl

theorem Sound.finish (h : Sound s) (hphase : s.phase = .reading r) (hs : s.finish r = some s') : Sound s' := by
  have hstream := h.stream
  simp only [StreamSound, hphase] at hstream
  obtain ⟨hunderway, hview⟩ := hstream
  obtain ⟨hstage, hs⟩ := ite_none_left_eq_some.mp hs
  have hdone : r.stage = .done := not_ne_iff.mp hstage
  have hrank : 2 ≤ r.stage.rank := by simp [hdone, rank]
  cases hround : r.round with
  | reset =>
    rw [hround] at hs
    cases hs
    have hfresh := hunderway.fresh hdone (by simp [hround])
    refine ⟨h.lifecycle.congr rfl rfl rfl, ?_⟩
    exact ⟨⟨hfresh.service, hfresh.groups, hfresh.clashMode, hfresh.sessions, hfresh.health, hfresh.cache⟩, rfl⟩
  | first =>
    have hview : s.view = some s.previous := hview.resolve_left (by simp [hround])
    have hnow : decide (r.snapshot.service = .started) = r.isStarted :=
      Bool.eq_iff_iff.mpr (decide_eq_true_iff.trans (hunderway.seen hrank))
    simp only [hround, hnow] at hs
    split_ifs at hs with hchanged
    · cases hs
      refine ⟨h.lifecycle.congr rfl rfl rfl, ?_, .inr hview⟩
      exact underway_new Nat.one_lt_two (fun _ => rfl) nofun nofun
    · cases hs
      refine ⟨h.lifecycle.congr rfl rfl rfl, streamSound_commit (hunderway.fresh hdone ?_) hview⟩
      exact fun hrepeat => hchanged hrepeat.2
  | second =>
    rw [hround] at hs
    cases hs
    have hview : s.view = some s.previous := hview.resolve_left (by simp [hround])
    exact ⟨h.lifecycle.congr rfl rfl rfl, streamSound_commit (hunderway.fresh hdone (by simp [hround])) hview⟩

end Rounds

theorem Sound.subscribe (h : Sound s) (hphase : s.phase = .absent) :
    Sound { s with phase := .reading (newReading .reset .arm none s.previous) } := by
  have hstream := h.stream
  simp only [StreamSound, hphase] at hstream
  refine ⟨h.lifecycle.congr rfl rfl rfl, ?_, .inl rfl⟩
  exact underway_new Nat.two_pos (fun _ => rfl) (fun _ => hstream.1) nofun

theorem Sound.sent (h : Sound s) {message : Message γ χ τ η} (hphase : s.phase = .sending message) :
    Sound { s with sent := s.sent ++ [message], phase := .waiting } := by
  have hstream := h.stream
  simp only [StreamSound, hphase] at hstream
  obtain ⟨hfresh, hview⟩ := hstream
  refine ⟨h.lifecycle.congr rfl rfl rfl,
    ⟨hfresh.service, hfresh.groups, hfresh.clashMode, hfresh.sessions, hfresh.health, hfresh.cache⟩, ?_⟩
  simp only [view, List.foldl_append, List.foldl_cons, List.foldl_nil]
  exact hview

theorem Sound.wakeUp (h : Sound s) (hphase : s.phase = .waiting) {cache : Option (List γ)}
    {notices : Kind → Notices} (hnotices : cache = none ∨ notices .urlTest = s.notices .urlTest)
    (hcache : cache = none ∨ cache = some s.previous.groups) : Sound { s.wakeUp cache with notices := notices } := by
  have hstream := h.stream
  simp only [StreamSound, hphase] at hstream
  obtain ⟨hfresh, hview⟩ := hstream
  refine ⟨h.lifecycle.congr rfl rfl rfl, ?_, .inr hview⟩
  refine underway_new Nat.two_pos (fun hround => absurd rfl hround) nofun fun groups (hgroups : cache = _) => ?_
  have hsame := hcache.resolve_left (by simp [hgroups])
  have hkept := hnotices.resolve_left (by simp [hgroups])
  cases hgroups.symm.trans hsame
  intro hbefore hstarted
  refine (hfresh.cache hbefore hstarted).imp_right fun htold => ?_
  unfold Told at htold ⊢
  rw [← hkept] at htold
  exact htold

theorem Sound.wake (h : Sound s) (hphase : s.phase = .waiting) (hs : s.wake kind = some s') : Sound s' := by
  obtain ⟨n, -, rfl⟩ := map_eq_some_iff.mp hs
  by_cases hkind : kind = .urlTest
  · subst hkind
    exact h.wakeUp hphase (.inl rfl) (.inl rfl)
  · rw [if_neg hkind]
    exact h.wakeUp hphase (.inr (update_of_ne (Ne.symm hkind) _ _)) (.inr rfl)

end StreamSteps

section Runs

theorem Advances.sound (h : Advances s s') (hs : Sound s) (hlifecycle : LifecycleSound s') : Sound s' :=
  ⟨hlifecycle, h.streamSound hs.stream⟩

theorem Sound.updateStatus (h : Sound s) {status : Status} {instance? : Option (Instance γ χ)} {interrupted : Bool}
    {lifecycle : Lifecycle} {startedAt : ℕ}
    (hstarted : status = .started → s.startedBefore = false ∧ instance?.isSome = true ∧ lifecycle = .free)
    (hrunning : lifecycle = .running → instance?.isSome = true) : Sound { s.updateStatus status with
      runtime := instance?, startInterrupted := interrupted, lifecycle := lifecycle, startedAt := startedAt } := by
  have htold : (s.updateStatus status).Told .service := .inl pending_emit
  refine Advances.sound (s := s) ⟨rfl, rfl, rfl, rfl, fun kind ht => .inl ((ht.emit .service).congr rfl rfl), .inr htold,
    .inl rfl, .inl ⟨rfl, rfl⟩, .inr (.inl htold), .inr (.inl htold), fun hnow hnoted => ?_⟩ h
    ⟨fun hbusy hstatus => hbusy (hstarted hstatus).2.2, hrunning, fun hstatus => (hstarted hstatus).2.1⟩
  rw [isStarted, Bool.and_eq_true, decide_eq_true_eq] at hnow
  rw [(hstarted hnow.1).1] at hnoted
  cases hnoted

theorem Sound.startReturned (h : Sound s) (hbusy : s.lifecycle = .running) {now : ℕ} {message : Option String}
    (hmet : s.noticed (.startReturned now message) = true) : Sound (s.startReturned now message) := by
  unfold Service.startReturned
  split_ifs with hinterrupted
  · have hstatus : s.status ≠ .started := h.lifecycle.busy (by simp [hbusy])
    have hnot : s.isStarted = false := isStarted_of_status_ne hstatus
    have hnot' : isStarted { s with startInterrupted := false, runtime := none, lifecycle := .free } = false :=
      isStarted_of_status_ne hstatus
    refine Advances.sound ?_ h ⟨fun hfree => absurd rfl hfree, nofun, fun hstarted => absurd hstarted hstatus⟩
    exact advances_of_same rfl rfl rfl rfl (fun _ => .inl) rfl (hnot'.trans hnot.symm)
      (current_of_not_started hnot hnot' rfl rfl rfl rfl)
  · cases message with
    | some message => exact h.updateStatus nofun nofun
    | none =>
      exact h.updateStatus (fun _ => ⟨by simpa [noticed, hinterrupted] using hmet, h.lifecycle.running hbusy, rfl⟩) nofun

section

variable (h : LifecycleSound s)
include h

theorem LifecycleSound.change (hstatus : s'.status = s.status)
    (hruntime : s'.runtime = some runtime) (hlifecycle : s'.lifecycle = s.lifecycle) : LifecycleSound s' := by
  refine ⟨?_, fun _ => by simp [hruntime], fun _ => by simp [hruntime]⟩
  rw [hlifecycle, hstatus]
  exact h.busy

end

theorem Sound.of_absent (h : Sound s) (hphase : s.phase = .absent) (hphase' : s'.phase = s.phase)
    (hbefore : s'.startedBefore = s.startedBefore) (hsent : s'.sent = s.sent) (hlifecycle : LifecycleSound s') :
    Sound s' := by
  have hstream := h.stream
  refine ⟨hlifecycle, ?_⟩
  simp only [StreamSound, hphase', hphase, hbefore, hsent] at hstream ⊢
  exact hstream

theorem Sound.shiftGroups (h : Sound s) (hruntime : s.runtime = some runtime)
    (hmet : s.noticed (.shiftGroups groups) = true) :
    Sound { s with runtime := some { runtime with groups := groups } } := by
  have hlifecycle : LifecycleSound { s with runtime := some { runtime with groups := groups } } :=
    h.lifecycle.change rfl rfl rfl
  by_cases hphase : s.phase = .absent
  · exact h.of_absent hphase rfl rfl rfl hlifecycle
  · refine Advances.sound (advances_change hruntime rfl (fun _ => id) (.inr ?_) (.inl rfl)) h hlifecycle
    simp only [noticed, Bool.false_or, Bool.or_eq_true, Bool.not_eq_true', decide_eq_true_eq] at hmet
    exact hmet

theorem Fresh.eq_current (h : s.Fresh snapshot) (hsettled : s.Settled) : snapshot = s.current := by
  obtain ⟨-, -, hclosed, hquiet⟩ := hsettled
  have hnot : ∀ kind, ¬s.Told kind := by
    intro kind htold
    obtain ⟨howed, hpending⟩ := hquiet kind
    rcases htold with hnotice | howe
    · rw [hpending] at hnotice
      cases hnotice
    · omega
  obtain ⟨hservice, hstartedAt⟩ := h.service.resolve_right (hnot .service)
  have hgroups : snapshot.groups = s.current.groups :=
    h.groups.resolve_right fun htold => htold.elim (hnot .service) fun htold => hnot .urlTest htold.2
  have hclashMode : snapshot.clashMode = s.current.clashMode :=
    h.clashMode.resolve_right fun htold => htold.elim (hnot .service) fun htold => hnot .clashMode htold.2
  have hsessions := h.sessions.resolve_right (hnot .session)
  have hhealth := h.health.resolve_right (by simp [hclosed])
  obtain ⟨service, startedAt, groups, clashMode, sessions, health⟩ := snapshot
  simp only at hservice hstartedAt hgroups hclashMode hsessions hhealth
  rw [hservice, hstartedAt, hgroups, hclashMode, hsessions, hhealth]
  rfl

variable [DecidableEq γ] [DecidableEq χ] [DecidableEq τ] [DecidableEq η]

theorem Sound.step {act : Step γ χ τ η} (h : Sound s) (hmet : s.noticed act = true) (hs : s.step act = some s') :
    Sound s' := by
  cases act with simp only [Service.step] at hs
  | startOrReload =>
    obtain ⟨-, hs⟩ := ite_none_right_eq_some.mp hs
    cases hs
    unfold startOrReload
    split_ifs
    all_goals exact h.updateStatus nofun nofun
  | oldClosed | notCreated message | closed =>
    obtain ⟨-, hs⟩ := ite_none_right_eq_some.mp hs
    cases hs
    exact h.updateStatus nofun nofun
  | created groups clashMode =>
    obtain ⟨hbusy, hs⟩ := ite_none_right_eq_some.mp hs
    cases hs
    have hstatus : s.status ≠ .started := h.lifecycle.busy (by simp [hbusy])
    exact (advances_created h.lifecycle hbusy groups clashMode).sound h ⟨fun _ => hstatus, fun _ => rfl, fun _ => rfl⟩
  | startReturned now message =>
    obtain ⟨hbusy, hs⟩ := ite_none_right_eq_some.mp hs
    cases hs
    exact h.startReturned hbusy hmet
  | closeService =>
    obtain ⟨-, hs⟩ := ite_none_right_eq_some.mp hs
    cases hs
    unfold closeService
    split_ifs
    · exact h
    · exact h.updateStatus nofun nofun
  | interruptStart =>
    cases hs
    unfold interruptStart
    split_ifs
    · refine Advances.sound ?_ h (h.lifecycle.congr rfl rfl rfl)
      exact advances_of_same rfl rfl rfl rfl (fun _ => .inl) rfl rfl rfl
    · exact h
  | setError message =>
    cases hs
    exact h.updateStatus nofun h.lifecycle.running
  | changeGroups groups =>
    obtain ⟨runtime, hruntime, rfl⟩ := map_eq_some_iff.mp hs
    exact Advances.sound (advances_change hruntime rfl (fun _ ht => ht.owe .urlTest) (.inr (.inr (told_owe (s := s)))) (.inl rfl)) h
      (h.lifecycle.change rfl rfl rfl)
  | shiftGroups groups =>
    obtain ⟨runtime, hruntime, rfl⟩ := map_eq_some_iff.mp hs
    exact h.shiftGroups hruntime hmet
  | changeClashMode clashMode =>
    obtain ⟨runtime, hruntime, rfl⟩ := map_eq_some_iff.mp hs
    exact Advances.sound (advances_change hruntime rfl (fun _ ht => ht.owe .clashMode) (.inl rfl) (.inr (told_owe (s := s)))) h
      (h.lifecycle.change rfl rfl rfl)
  | changeSessions sessions =>
    cases hs
    exact (advances_changeSessions sessions).sound h (h.lifecycle.congr rfl rfl rfl)
  | changeHealth health =>
    cases hs
    exact (advances_changeHealth health).sound h (h.lifecycle.congr rfl rfl rfl)
  | announce kind =>
    cases hs
    exact (advances_announce kind).sound h (h.lifecycle.congr rfl rfl rfl)
  | relay kind =>
    obtain ⟨n, hn, rfl⟩ := map_eq_some_iff.mp hs
    exact (advances_of_pending (Notices.pending_relay hn)).sound h (h.lifecycle.congr rfl rfl rfl)
  | deliver kind =>
    split at hs
    · next hphase =>
      obtain ⟨n, -, rfl⟩ := map_eq_some_iff.mp hs
      exact h.of_absent hphase rfl rfl rfl (h.lifecycle.congr rfl rfl rfl)
    · obtain ⟨n, hn, rfl⟩ := map_eq_some_iff.mp hs
      have hsize : 0 < kind.observerSize := by cases kind <;> decide
      exact (advances_of_pending (Notices.pending_deliver hsize hn)).sound h (h.lifecycle.congr rfl rfl rfl)
  | subscribe =>
    split at hs
    · next hphase =>
      cases hs
      exact h.subscribe hphase
    · cases hs
  | read =>
    split at hs
    · next r hphase => exact h.read hphase hs
    · cases hs
  | finish =>
    split at hs
    · next r hphase => exact h.finish hphase hs
    · cases hs
  | sent =>
    split at hs
    · next message hphase =>
      cases hs
      exact h.sent hphase
    · cases hs
  | wake kind =>
    split at hs
    · next hphase => exact h.wake hphase hs
    · cases hs
  | wakeHealth =>
    split at hs
    · next hphase =>
      obtain ⟨-, hs⟩ := ite_none_right_eq_some.mp hs
      cases hs
      exact h.wakeUp hphase (.inr rfl) (.inr rfl)
    · cases hs
  | wakeTimer =>
    split at hs
    · next hphase =>
      cases hs
      exact h.wakeUp hphase (.inr rfl) (.inr rfl)
    · cases hs

theorem settled_view {health : η} {acts : List (Step γ χ τ η)} (h : Run step (noticed · ·) (initial health) acts s)
    (hsettled : s.Settled) : s.view = some s.current := by
  have hsound : Sound s :=
    h.invariant .step ⟨⟨fun hfree => absurd rfl hfree, nofun, nofun⟩, rfl, rfl⟩
  have hstream := hsound.stream
  simp only [StreamSound, hsettled.1] at hstream
  rw [hstream.2, hstream.1.eq_current hsettled]

def round : List (Step ℕ ℕ ℕ ℕ) := [.read, .read, .read, .read, .read, .finish]

def handOver (kind : Kind) (rounds : List (Step ℕ ℕ ℕ ℕ)) : List (Step ℕ ℕ ℕ ℕ) :=
  [Step.relay kind, .deliver kind, .wake kind] ++ rounds

def again : List (Step ℕ ℕ ℕ ℕ) := [.read, .read, .read, .read, .finish, .sent]

def subscribed : List (Step ℕ ℕ ℕ ℕ) :=
  [Step.startOrReload, .created [1] none, .startReturned 5 none, .relay .service, .deliver .service, .relay .service,
    .deliver .service, .subscribe] ++ round

def watched : List (Step ℕ ℕ ℕ ℕ) :=
  subscribed ++ [Step.sent, .startOrReload] ++ handOver .service (round ++ again) ++
  [Step.oldClosed, .created [2] none, .startReturned 7 none] ++ handOver .service (round ++ again) ++
  handOver .service round

theorem settled_view_watched : ∃ s : Service ℕ ℕ ℕ ℕ, Run step (noticed · ·) (initial 0) watched s ∧ s.Settled ∧
    s.view = some s.current ∧ s.current.groups = [2] := by
  refine (Run.exists_of_decideWhile (P := fun s => s.Settled ∧ s.current.groups = [2]) ?_).imp
    fun s ⟨hrun, hsettled, hgroups⟩ => ⟨hrun, hsettled, settled_view hrun hsettled, hgroups⟩
  decide +kernel

def reloads : List (Step ℕ ℕ ℕ ℕ) :=
  subscribed ++
  -- the reset is still in `Send` while the service is reloaded
  [Step.startOrReload, .oldClosed, .created [2] none, .startReturned 7 none, .sent] ++
  handOver .service (round ++ [Step.sent]) ++ handOver .service round ++ handOver .service round

theorem changes_unnoticed : (∃ s : Service ℕ ℕ ℕ ℕ, Run step anyStep (initial 0) reloads s ∧ s.Settled ∧
      s.view = some ⟨.started, 8, [1], none, [], 0⟩ ∧ s.current = ⟨.started, 8, [2], none, [], 0⟩) ∧
    ∃ s : Service ℕ ℕ ℕ ℕ, Run step anyStep (initial 0) (subscribed ++ [.sent, .shiftGroups [2]]) s ∧ s.Settled ∧
      s.view = some ⟨.started, 6, [1], none, [], 0⟩ ∧ s.current = ⟨.started, 6, [2], none, [], 0⟩ := by
  refine ⟨Run.exists_of_decide ?_, Run.exists_of_decide ?_⟩
  · decide +kernel
  · decide +kernel

end Runs

end Service

end Hydracore.Daemon
