import Hydracore.Daemon.URLTests
import Hydracore.Systems.Tasks

namespace Hydracore.Daemon.URLTest

open Hydracore.Systems List Option Session SessionState Worker

def Worker.holds : Worker → List Target
  | .took target | .probing target | .reporting target _ _ | .recording target _ _ _ => [target]
  | _ => []

def Worker.marks : Worker → List String
  | .marking target => [target.tag]
  | _ => []

def Session.resultTags (session : Session) : List String := session.results.map (·.outboundTag)

structure Working (runner : Runner) (reported : List Target) : Prop where
  pool : ∀ target, runner.jobs.count target + total (fun worker => worker.holds.count target) runner.workers +
    reported.count target ≤ runner.targets.count target
  marked : ∀ tag, runner.handled.count tag + total (fun worker => worker.marks.count tag) runner.workers =
    (reported.map (·.tag)).count tag

def Shared (runner : Runner) (rest reported : List Target) : Prop :=
  ∀ target, rest.count target + reported.count target = runner.targets.count target

def Progress (runner : Runner) (reported : List Target) : Prop :=
  match runner.stage with
  | .working => Working runner reported
  | .remaining rest => Shared runner rest reported
  | .recording target _ rest => Shared runner (target :: rest) reported
  | .finished => False

structure Slot.Sound (slot : Slot) : Prop where
  distinct : Distinct slot.runner.targets
  total : slot.session.total = slot.runner.targets.length
  completed : slot.session.completed = slot.session.results.length
  counted : slot.session.succeeded + slot.session.failed = slot.session.results.length
  stopped : slot.runner.stage ≠ .working → ∀ worker ∈ slot.runner.workers, worker = .done
  reported : slot.session.resultTags.Subperm (slot.runner.targets.map (·.managedResultTag))
  settled : slot.session.state = .succeeded ∨ slot.session.state = .failed →
    slot.session.resultTags.Perm (slot.runner.targets.map (·.managedResultTag))
  progress : slot.session.state = .running →
    ∃ reported, slot.session.resultTags = reported.map (·.managedResultTag) ∧ Progress slot.runner reported

variable {runner : Runner} {reported : List Target}

theorem Progress.le (h : Progress runner reported) (target : Target) :
    reported.count target ≤ runner.targets.count target := by
  unfold Progress at h
  split at h
  · have := h.pool target
    omega
  · have := h target
    omega
  · have := h target
    omega
  · exact h.elim

theorem managedResult_outboundTag (target : Target) (now delay : ℕ) (err : Option Failure) :
    (managedResult target now delay err).outboundTag = target.managedResultTag := by
  cases err <;> rfl

variable {slot slot' : Slot}

structure Session.Counted (session : Session) (targets : List Target) : Prop where
  running : session.state = .running
  total : session.total = targets.length
  completed : session.completed = session.results.length
  counted : session.succeeded + session.failed = session.results.length

section

variable (h : slot.Sound) (htargets : slot'.runner.targets = slot.runner.targets)
  (hstopped : slot'.runner.stage ≠ .working → ∀ worker ∈ slot'.runner.workers, worker = .done)
include h htargets hstopped

theorem Slot.Sound.of_running (hsession : slot'.session.Counted slot.runner.targets) (reported : List Target)
    (htags : slot'.session.resultTags = reported.map (·.managedResultTag))
    (hprogress : Progress slot'.runner reported) : slot'.Sound where
  distinct := htargets ▸ h.distinct
  total := by rw [htargets, hsession.total]
  completed := hsession.completed
  counted := hsession.counted
  stopped := hstopped
  reported := by
    rw [htags]
    obtain ⟨part, hperm, hsub⟩ := subperm_ext_iff.mpr fun target _ => hprogress.le target
    exact ⟨_, hperm.map _, hsub.map _⟩
  settled := by
    rw [hsession.running]
    rintro (hended | hended) <;> cases hended
  progress := fun _ => ⟨reported, htags, hprogress⟩

theorem Slot.Sound.of_same (hsession : slot'.session = slot.session)
    (hprogress : slot.session.state = .running → ∀ reported, Progress slot.runner reported →
      Progress slot'.runner reported) : slot'.Sound where
  distinct := htargets ▸ h.distinct
  total := by rw [hsession, htargets, h.total]
  completed := by rw [hsession, h.completed]
  counted := by rw [hsession, h.counted]
  stopped := hstopped
  reported := by
    rw [hsession, htargets]
    exact h.reported
  settled := by
    rw [hsession, htargets]
    exact h.settled
  progress := by
    rw [hsession]
    intro hstate
    exact (h.progress hstate).imp fun reported hreported => hreported.imp_right (hprogress hstate reported)

theorem Slot.Sound.of_end {state : SessionState} {now : ℕ} {errorCode errorMessage : String}
    (hsession : slot'.session = slot.session.leave state now errorCode errorMessage) (hstate : state ≠ .running)
    (hsettled : state = .succeeded ∨ state = .failed →
      slot.session.resultTags.Perm (slot.runner.targets.map (·.managedResultTag))) : slot'.Sound where
  distinct := htargets ▸ h.distinct
  total := by rw [hsession, htargets]; exact h.total
  completed := by rw [hsession]; exact h.completed
  counted := by rw [hsession]; exact h.counted
  stopped := hstopped
  reported := by
    rw [hsession, htargets]
    exact h.reported
  settled := by
    rw [hsession, htargets]
    exact hsettled
  progress := by
    rw [hsession]
    exact fun hrunning => absurd hrunning hstate

end

/-! ### The workers -/

theorem Working.put {reported reported' jobs : List Target} {handled : List String} {w : ℕ}
    {worker new : Worker} (h : Working runner reported) (hworker : runner.workers[w]? = some worker)
    (hpool : ∀ target, jobs.count target + new.holds.count target + reported'.count target ≤
      runner.jobs.count target + worker.holds.count target + reported.count target)
    (hmarked : ∀ tag, handled.count tag + new.marks.count tag + (reported.map (·.tag)).count tag =
      runner.handled.count tag + worker.marks.count tag + (reported'.map (·.tag)).count tag) :
    Working { runner.put w new with jobs, handled } reported' where
  pool := by
    intro target
    have hset := total_set (f := fun worker => worker.holds.count target) hworker new
    have hold := h.pool target
    have hnew := hpool target
    simp only [Runner.put]
    omega
  marked := by
    intro tag
    have hset := total_set (f := fun worker => worker.marks.count tag) hworker new
    have hold := h.marked tag
    have hnew := hmarked tag
    simp only [Runner.put]
    omega

theorem Progress.working (hstage : runner.stage = .working) :
    Progress runner reported ↔ Working runner reported := by
  unfold Progress
  rw [hstage]

variable {session : Session}

theorem record_ended (hstate : session.state ≠ .running) (result : Result) (succeeded : Bool) :
    session.recordURLTestResult result succeeded = session := if_neg hstate

theorem record_resultTags (hstate : session.state = .running) (result : Result) (succeeded : Bool) :
    (session.recordURLTestResult result succeeded).resultTags = session.resultTags ++ [result.outboundTag] := by
  simp [recordURLTestResult, resultTags, hstate]

theorem Session.Counted.record {targets : List Target} (h : session.Counted targets) (result : Result)
    (succeeded : Bool) : (session.recordURLTestResult result succeeded).Counted targets := by
  obtain ⟨hstate, htotal, hcompleted, hcounted⟩ := h
  rw [recordURLTestResult, if_pos hstate]
  refine ⟨hstate, htotal, by simp [hcompleted], ?_⟩
  cases succeeded <;> simp <;> omega

theorem record_groupTag (session : Session) (result : Result) (succeeded : Bool) :
    (session.recordURLTestResult result succeeded).groupTag = session.groupTag := by
  unfold recordURLTestResult
  split_ifs <;> rfl

inductive Turned (slot : Slot) (current : Bool) (w : ℕ) : Worker → Slot → Prop
  | left : Turned slot current w .idle { slot with runner := slot.runner.put w .done }
  | taken {target : Target} {jobs : List Target} (hjobs : slot.runner.jobs = target :: jobs) :
      Turned slot current w .idle { slot with runner := { slot.runner.put w (.took target) with jobs } }
  | dropped {target : Target} : Turned slot current w (.took target) { slot with runner := slot.runner.put w .done }
  | started {target : Target} :
      Turned slot current w (.took target) { slot with runner := slot.runner.put w (.probing target) }
  | probed {target : Target} (delay : ℕ) (err : Option Failure) :
      Turned slot current w (.probing target) { slot with runner := slot.runner.put w (.reporting target delay err) }
  | checked {target : Target} {delay : ℕ} {err : Option Failure} (now : ℕ) :
      Turned slot current w (.reporting target delay err)
        { slot with runner := slot.runner.put w (.recording target now delay err) }
  | skipped {target : Target} {delay : ℕ} {err : Option Failure} (hcurrent : current = false) :
      Turned slot current w (.reporting target delay err) { slot with runner := slot.runner.put w (.marking target) }
  | recorded {target : Target} {now delay : ℕ} {err : Option Failure} :
      Turned slot current w (.recording target now delay err)
        { session := slot.session.recordURLTestResult (managedResult target now delay err) err.isNone
          runner := slot.runner.put w (.marking target) }
  | marked {target : Target} : Turned slot current w (.marking target)
        { slot with runner := { slot.runner.put w .idle with handled := target.tag :: slot.runner.handled } }

theorem work_turned {current : Bool} {w : ℕ} {worker : Worker} {turn : Turn}
    (h : slot.work current w worker turn = some slot') : Turned slot current w worker slot' := by
  unfold Slot.work at h
  split at h
  · split_ifs at h
    cases h
    exact .left
  · split at h
    · cases h
    · rename_i hjobs
      cases h
      exact .taken hjobs
  · cases h
    split_ifs
    · exact .dropped
    · exact .started
  · cases h
    exact .probed ..
  · cases h
    split_ifs with hcurrent
    · exact .checked _
    · exact .skipped (by simpa using hcurrent)
  · cases h
    exact .recorded
  · cases h
    exact .marked
  · cases h

structure Slot.Follows (slot slot' : Slot) : Prop where
  groupTag : slot'.session.groupTag = slot.session.groupTag
  session : slot.session.state ≠ .running → slot'.session = slot.session

theorem Slot.Follows.of_session (h : slot'.session = slot.session) : slot.Follows slot' := ⟨by rw [h], fun _ => h⟩

theorem Slot.Follows.state (h : slot.Follows slot') (hstate : slot'.session.state = .running) :
    slot.session.state = .running := by
  by_contra hne
  rw [h.session hne] at hstate
  exact hne hstate

variable {current : Bool} {w : ℕ} {worker : Worker}

section

variable (h : Turned slot current w worker slot')
include h

theorem Turned.targets : slot'.runner.targets = slot.runner.targets := by
  cases h <;> rfl

theorem Turned.stage : slot'.runner.stage = slot.runner.stage := by
  cases h <;> rfl

theorem Turned.not_done : worker ≠ .done := by
  cases h <;> exact Worker.noConfusion

theorem Turned.follows : slot.Follows slot' := by
  cases h with
  | recorded => exact ⟨record_groupTag .., fun hstate => record_ended hstate _ _⟩
  | _ => exact .of_session rfl

end

theorem Slot.Sound.stage_working (h : slot.Sound) (hworker : slot.runner.workers[w]? = some worker)
    (hdone : worker ≠ .done) : slot.runner.stage = .working := by
  by_contra hstage
  exact hdone (h.stopped hstage worker (mem_of_getElem? hworker))

section

variable (h : Turned slot current w worker slot')
include h

theorem Turned.working (hworker : slot.runner.workers[w]? = some worker) (hcurrent : current = true)
    (hworking : Working slot.runner reported)
    (hstate : slot.session.state = .running) (htags : slot.session.resultTags = reported.map (·.managedResultTag)) :
    ∃ reported', slot'.session.resultTags = reported'.map (·.managedResultTag) ∧ Working slot'.runner reported' := by
  cases h with
  | left | dropped | started | probed | checked =>
    exact ⟨reported, htags, hworking.put hworker (by simp [holds]) (by simp [marks])⟩
  | taken hjobs =>
    refine ⟨reported, htags, hworking.put hworker ?_ (by simp [marks, Runner.put])⟩
    intro target
    simp only [hjobs, holds, count_cons, count_nil]
    omega
  | skipped hskipped =>
    rw [hcurrent] at hskipped
    cases hskipped
  | @recorded target now delay err =>
    refine ⟨reported ++ [target], ?_, hworking.put hworker ?_ ?_⟩
    · rw [record_resultTags hstate, htags, managedResult_outboundTag, map_append, map_singleton]
    · intro other
      simp only [holds, count_append, count_nil]
      omega
    · intro tag
      simp only [marks, map_append, map_singleton, count_append, count_nil]
      omega
  | marked =>
    refine ⟨reported, htags, hworking.put hworker (by simp [holds, Runner.put]) ?_⟩
    intro tag
    simp only [marks, count_cons, count_nil]
    omega

theorem Turned.counted {targets : List Target} (hcounted : slot.session.Counted targets) :
    slot'.session.Counted targets := by
  cases h with
  | recorded => exact hcounted.record _ _
  | _ => exact hcounted

theorem Turned.sound (hsound : slot.Sound) (hworker : slot.runner.workers[w]? = some worker)
    (hcurrent : slot.session.state = .running → current = true) : slot'.Sound := by
  have hstage := hsound.stage_working hworker h.not_done
  have hstage' : slot'.runner.stage = .working := h.stage.trans hstage
  have hstopped : slot'.runner.stage ≠ .working → ∀ worker ∈ slot'.runner.workers, worker = .done :=
    fun hne => absurd hstage' hne
  by_cases hstate : slot.session.state = .running
  · obtain ⟨reported, htags, hprogress⟩ := hsound.progress hstate
    obtain ⟨reported', htags', hworking⟩ :=
      h.working hworker (hcurrent hstate) ((Progress.working hstage).mp hprogress) hstate htags
    exact hsound.of_running h.targets hstopped (h.counted ⟨hstate, hsound.total, hsound.completed, hsound.counted⟩)
      reported' htags' ((Progress.working hstage').mpr hworking)
  · exact hsound.of_same h.targets hstopped (h.follows.session hstate) fun hrunning => absurd hrunning hstate

end

/-! ### The second pass -/

theorem Working.shared (h : Working runner reported)
    (htags : (runner.targets.map (·.tag)).Nodup) (hdone : ∀ worker ∈ runner.workers, worker = .done) :
    Shared runner runner.unmeasured reported := by
  have hmarked : ∀ tag, runner.handled.count tag = (reported.map (·.tag)).count tag := by
    intro tag
    have hnone : total (fun worker => worker.marks.count tag) runner.workers = 0 := by
      apply total_eq_zero
      intro worker hworker
      rw [hdone worker hworker]
      rfl
    have := h.marked tag
    omega
  have hhandled : ∀ tag, tag ∈ runner.handled ↔ ∃ target ∈ reported, target.tag = tag := by
    intro tag
    rw [← count_pos_iff, hmarked, count_pos_iff, List.mem_map]
  have hle : ∀ target, reported.count target ≤ runner.targets.count target := by
    intro target
    have := h.pool target
    omega
  intro target
  have hone : runner.targets.count target ≤ 1 := nodup_iff_count_le_one.mp (htags.of_map _) target
  by_cases hreported : target ∈ reported
  · have hpos := count_pos_iff.mpr hreported
    have := hle target
    have hunmeasured : runner.unmeasured.count target = 0 := by
      apply count_eq_zero_of_not_mem
      intro hmem
      have := (mem_filter.mp hmem).2
      exact absurd ((hhandled _).mpr ⟨target, hreported, rfl⟩) (by simpa using this)
    omega
  · have hzero : reported.count target = 0 := count_eq_zero_of_not_mem hreported
    rw [hzero, Nat.add_zero]
    by_cases hmember : target ∈ runner.targets
    · apply count_filter
      simp only [decide_eq_true_eq]
      intro hmem
      obtain ⟨other, hother, htag⟩ := (hhandled _).mp hmem
      have hpos := count_pos_iff.mpr hother
      have hcount := hle other
      have hotherMem : other ∈ runner.targets := count_pos_iff.mp (by omega)
      rw [inj_on_of_nodup_map htags hotherMem hmember htag] at hother
      exact hreported hother
    · rw [count_eq_zero_of_not_mem hmember]
      apply count_eq_zero_of_not_mem
      exact fun hmem => hmember (mem_filter.mp hmem).1

section

variable (h : slot.Sound)
include h

theorem Slot.Sound.collect (hcollect : slot.collect = some slot') : slot'.Sound := by
  unfold Slot.collect at hcollect
  split_ifs at hcollect with hguard
  obtain ⟨hstage, hdone⟩ := hguard
  cases hcollect
  refine h.of_same rfl (fun _ => hdone) rfl fun _ reported hprogress => ?_
  exact ((Progress.working hstage).mp hprogress).shared h.distinct.tags hdone

theorem Slot.Sound.checkRest {now : ℕ} (hcurrent : slot.session.state = .running → current = true)
    (hcheck : slot.checkRest current now = some slot') : slot'.Sound := by
  unfold Slot.checkRest at hcheck
  split at hcheck
  · rename_i target rest hstage
    have hstopped := h.stopped (by simp [hstage])
    cases hcheck
    refine h.of_same rfl (fun _ => hstopped) rfl fun hstate reported hprogress => ?_
    rw [if_pos (hcurrent hstate)]
    simp only [Progress, hstage] at hprogress ⊢
    exact hprogress
  · cases hcheck

theorem Slot.Sound.recordRest (hrecord : slot.recordRest = some slot') : slot'.Sound := by
  unfold Slot.recordRest at hrecord
  split at hrecord
  · rename_i target now rest hstage
    have hstopped := h.stopped (by simp [hstage])
    cases hrecord
    by_cases hstate : slot.session.state = .running
    · obtain ⟨reported, htags, hprogress⟩ := h.progress hstate
      refine h.of_running rfl (fun _ => hstopped) (.record ⟨hstate, h.total, h.completed, h.counted⟩ _ _)
        (reported ++ [target]) ?_ ?_
      · rw [record_resultTags hstate, htags, managedResult_outboundTag, map_append, map_singleton]
      · simp only [Progress, hstage] at hprogress ⊢
        intro other
        have := hprogress other
        simp only [count_append, count_cons, count_nil] at this ⊢
        omega
    · exact h.of_same rfl (fun _ => hstopped) (record_ended hstate _ _) fun hrunning => absurd hrunning hstate
  · cases hrecord

theorem Slot.Sound.ctxDone (reason : ContextError) :
    Slot.Sound { slot with runner := slot.runner.ctxDone reason } := by
  refine h.of_same rfl h.stopped rfl fun _ reported hprogress => ?_
  unfold Progress at hprogress ⊢
  split at hprogress <;> rename_i hstage <;> simp only [Runner.ctxDone, hstage]
  · exact ⟨hprogress.pool, hprogress.marked⟩
  · exact hprogress
  · exact hprogress
  · exact hprogress

theorem Slot.Sound.move {move : Move} (hcurrent : slot.session.state = .running → current = true)
    (hmove : slot.move current move = some slot') : slot'.Sound := by
  cases move with
  | worker w turn =>
    obtain ⟨worker, hworker, hwork⟩ := bind_eq_some_iff.mp hmove
    exact (work_turned hwork).sound h hworker hcurrent
  | collect => exact h.collect hmove
  | checkRest now => exact h.checkRest hcurrent hmove
  | recordRest => exact h.recordRest hmove
  | ctxDone reason =>
    cases hmove
    exact h.ctxDone reason

end

theorem Slot.move_follows {move : Move} (hmove : slot.move current move = some slot') : slot.Follows slot' := by
  cases move with
  | worker w turn =>
    obtain ⟨worker, hworker, hwork⟩ := bind_eq_some_iff.mp hmove
    exact (work_turned hwork).follows
  | collect =>
    simp only [Slot.move, Slot.collect] at hmove
    split_ifs at hmove
    cases hmove
    exact .of_session rfl
  | checkRest now =>
    simp only [Slot.move, Slot.checkRest] at hmove
    split at hmove
    · cases hmove
      exact .of_session rfl
    · cases hmove
  | recordRest =>
    simp only [Slot.move, Slot.recordRest] at hmove
    split at hmove
    · cases hmove
      exact ⟨record_groupTag .., fun hstate => record_ended hstate _ _⟩
    · cases hmove
  | ctxDone reason =>
    cases hmove
    exact .of_session rfl

/-! ### The end of a session -/

section Ending

variable {now : ℕ} {errorCode errorMessage : String}

theorem Slot.Sound.cancel (h : slot.Sound) : (slot.cancel now errorCode errorMessage).Sound := by
  unfold Slot.cancel
  split_ifs with hstate
  · refine h.of_end rfl h.stopped rfl noConfusion ?_
    rintro (hended | hended) <;> cases hended
  · exact h

theorem Slot.cancel_follows : slot.Follows (slot.cancel now errorCode errorMessage) := by
  unfold Slot.cancel
  split_ifs with hstate
  · exact ⟨rfl, fun hne => absurd hstate hne⟩
  · exact .of_session rfl

theorem Slot.cancel_state : (slot.cancel now errorCode errorMessage).session.state ≠ .running := by
  unfold Slot.cancel
  split_ifs with hstate
  · exact noConfusion
  · exact hstate

end Ending

theorem Shared.perm (h : Shared runner [] reported) : reported.Perm runner.targets := by
  apply perm_iff_count.mpr
  intro target
  have := h target
  simpa using this

theorem finish_running (hstate : session.state = .running) (ctx : Option ContextError) (now : ℕ) :
    ∃ state errorCode errorMessage,
      state ≠ .running ∧ session.finish ctx now = session.leave state now errorCode errorMessage := by
  simp only [finish, hstate, if_true]
  split
  · exact ⟨.cancelled, _, _, noConfusion, rfl⟩
  · exact ⟨.failed, _, _, noConfusion, rfl⟩
  · split_ifs
    · exact ⟨.succeeded, _, _, noConfusion, rfl⟩
    · exact ⟨.failed, _, _, noConfusion, rfl⟩

theorem finish_ended (hstate : session.state ≠ .running) (ctx : Option ContextError) (now : ℕ) :
    session.finish ctx now = session := if_neg hstate

theorem Slot.Sound.finish (h : slot.Sound) (hstage : slot.runner.stage = .remaining []) (now : ℕ) :
    (slot.finish now).Sound := by
  have hstopped := h.stopped (by simp [hstage])
  by_cases hstate : slot.session.state = .running
  · obtain ⟨state, errorCode, errorMessage, hne, hfinish⟩ := finish_running hstate slot.runner.ctx now
    refine h.of_end rfl (fun _ => hstopped) hfinish hne ?_
    intro _
    obtain ⟨reported, htags, hprogress⟩ := h.progress hstate
    simp only [Progress, hstage] at hprogress
    rw [htags]
    exact hprogress.perm.map _
  · exact h.of_same rfl (fun _ => hstopped) (finish_ended hstate ..) fun hrunning => absurd hrunning hstate

theorem Slot.finish_follows (now : ℕ) : slot.Follows (slot.finish now) := by
  by_cases hstate : slot.session.state = .running
  · obtain ⟨state, errorCode, errorMessage, -, hfinish⟩ := finish_running hstate slot.runner.ctx now
    refine ⟨?_, fun hne => absurd hstate hne⟩
    change (slot.session.finish slot.runner.ctx now).groupTag = _
    rw [hfinish]
    rfl
  · exact .of_session (finish_ended hstate ..)

theorem Slot.finish_state (now : ℕ) : (slot.finish now).session.state ≠ .running := by
  change (slot.session.finish slot.runner.ctx now).state ≠ _
  by_cases hstate : slot.session.state = .running
  · obtain ⟨state, errorCode, errorMessage, hne, hfinish⟩ := finish_running hstate slot.runner.ctx now
    rw [hfinish]
    exact hne
  · rw [finish_ended hstate]
    exact hstate

theorem total_newRunner {f : Worker → ℕ} (hf : f .idle = 0) (targets : List Target) (concurrency : ℕ) :
    total f (newRunner targets concurrency).workers = 0 := by
  apply total_eq_zero
  intro worker hworker
  rw [eq_of_mem_replicate hworker, hf]

theorem newRunner_working (targets : List Target) (concurrency : ℕ) : Working (newRunner targets concurrency) [] where
  pool := by
    intro target
    rw [total_newRunner rfl]
    exact le_rfl
  marked := by
    intro tag
    rw [total_newRunner rfl]
    rfl

theorem newSlot_sound {targets : List Target} (h : Distinct targets) (boxService : ℕ) (groupTag : String)
    (now concurrency : ℕ) : Slot.Sound ⟨newSession boxService groupTag targets now, newRunner targets concurrency⟩ where
  distinct := h
  total := rfl
  completed := rfl
  counted := rfl
  stopped := fun hstage => absurd rfl hstage
  reported := nil_subperm
  settled := by rintro (hended | hended) <;> cases hended
  progress := fun _ => ⟨[], rfl, newRunner_working ..⟩

end Hydracore.Daemon.URLTest
