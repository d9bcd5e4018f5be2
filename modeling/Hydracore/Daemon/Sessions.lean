import Hydracore.Daemon.Probing

namespace Hydracore.Daemon.URLTest

open Hydracore.Systems List Option Slot Service

structure Service.Sound (s : Service) : Prop where
  slots : ∀ slot ∈ s.slots, slot.Sound
  current : ∀ (id : ℕ) (slot : Slot), s.slots[id]? = some slot → slot.session.state = .running →
    s.urlTestSessionByGroup slot.session.groupTag = some id ∧ id ∈ s.urlTestSessions

def Service.Keeps (s t : Service) : Prop :=
  ∀ (id : ℕ) (slot : Slot), s.slots[id]? = some slot → slot.session.state ≠ .running →
    ∃ slot' : Slot, t.slots[id]? = some slot' ∧ slot'.session = slot.session

variable {s t u : Service} {id : ℕ} {slot slot' : Slot}

theorem Service.Keeps.of_slots (h : t.slots = s.slots) : s.Keeps t := by
  intro id slot hslot _
  exact ⟨slot, h ▸ hslot, rfl⟩

theorem Service.Keeps.trans (h : s.Keeps t) (h' : t.Keeps u) : s.Keeps u := by
  intro id slot hslot hstate
  obtain ⟨slot', hslot', hsame⟩ := h id slot hslot hstate
  obtain ⟨slot'', hslot'', hsame'⟩ := h' id slot' hslot' (hsame ▸ hstate)
  exact ⟨slot'', hslot'', hsame'.trans hsame⟩

structure Service.Leads (s t : Service) : Prop where
  sound : s.Sound → t.Sound
  keeps : s.Keeps t

theorem Service.Leads.refl : s.Leads s := ⟨id, .of_slots rfl⟩

theorem Service.Leads.trans (h : s.Leads t) (h' : t.Leads u) : s.Leads u :=
  ⟨fun hsound => h'.sound (h.sound hsound), h.keeps.trans h'.keeps⟩

theorem Service.Leads.set (hslot : s.slots[id]? = some slot) (hsound : s.Sound → slot'.Sound)
    (hfollows : slot.Follows slot') : s.Leads { s with slots := s.slots.set id slot' } := by
  refine ⟨fun h => ⟨forall_mem_set h.slots (hsound h), fun id' other hother hstate => ?_⟩,
    fun id' other hother hstate => ?_⟩
  · rcases getElem?_set_cases hother with ⟨rfl, rfl⟩ | ⟨_, hold⟩
    · rw [hfollows.groupTag]
      exact h.current id' slot hslot (hfollows.state hstate)
    · exact h.current id' other hold hstate
  · by_cases heq : id = id'
    · obtain rfl := heq
      cases hslot.symm.trans hother
      refine ⟨slot', ?_, hfollows.session hstate⟩
      exact getElem?_set_self (getElem?_lt hslot)
    · exact ⟨other, (getElem?_set_ne heq).trans hother, rfl⟩

section Holding

variable (h : s.Sound) (hslot : s.slots[id]? = some slot)
include h hslot

theorem Service.Sound.get : slot.Sound :=
  h.slots slot (mem_of_getElem? hslot)

variable (hstate : slot.session.state = .running)
include hstate

theorem Service.Sound.isCurrent : s.isCurrentURLTestSession id = true := by
  simp [isCurrentURLTestSession, hslot, hstate, (h.current id slot hslot hstate).1]

theorem Service.existing_of_running : s.existing slot.session.groupTag = some id := by
  obtain ⟨hcurrent, hlisted⟩ := h.current id slot hslot hstate
  simp [existing, hcurrent, hlisted]

theorem Service.Sound.running_unique {id' : ℕ} (hslot' : s.slots[id']? = some slot')
    (hstate' : slot'.session.state = .running) (hgroup : slot.session.groupTag = slot'.session.groupTag) :
    id = id' := by
  have hcurrent := (h.current id slot hslot hstate).1
  have hcurrent' := (h.current id' slot' hslot' hstate').1
  rw [hgroup] at hcurrent
  exact some.inj (hcurrent.symm.trans hcurrent')

end Holding

/-! ### The entry of a group -/

theorem Service.Leads.forget (hended : ∀ slot, s.slots[id]? = some slot → slot.session.state ≠ .running)
    (groupTag : String) : s.Leads (s.forget groupTag id) := by
  unfold Service.forget
  split_ifs with hentry
  · refine ⟨fun h => ⟨h.slots, ?_⟩, .of_slots rfl⟩
    intro id' slot hslot hstate
    obtain ⟨hcurrent, hlisted⟩ := h.current id' slot hslot hstate
    refine ⟨?_, hlisted⟩
    have hgroup : slot.session.groupTag ≠ groupTag := by
      rintro rfl
      cases hentry.symm.trans hcurrent
      exact hended slot hslot hstate
    exact (Function.update_of_ne hgroup _ _).trans hcurrent
  · exact .refl

theorem Service.set_ended (hstate : slot'.session.state ≠ .running) (other : Slot)
    (hother : (s.slots.set id slot')[id]? = some other) : other.session.state ≠ .running := by
  rcases getElem?_set_cases hother with ⟨_, rfl⟩ | ⟨hne, _⟩
  · exact hstate
  · exact absurd rfl hne

/-! ### Pruning -/

variable {order : List ℕ}

theorem Service.prune_cases (h : s.prune order = some t) :
    t.slots = s.slots ∧ t.urlTestSessionByGroup = s.urlTestSessionByGroup ∧
      ∀ id ∈ s.urlTestSessions, s.running id = true → id ∈ t.urlTestSessions := by
  simp only [prune] at h
  split_ifs at h with hfew horder
  · cases h
    exact ⟨rfl, rfl, fun _ hid _ => hid⟩
  · cases h
    refine ⟨rfl, rfl, fun id hid hrunning => mem_filter.mpr ⟨hid, ?_⟩⟩
    simp only [decide_eq_true_eq]
    intro htaken
    have hcompleted := (isPerm_iff.mp horder.1).subset (mem_of_mem_take htaken)
    have := (mem_filter.mp hcompleted).2
    rw [hrunning] at this
    cases this

theorem Service.Leads.prune (hprune : s.prune order = some t) : s.Leads t := by
  obtain ⟨hslots, hgroups, hlisted⟩ := prune_cases hprune
  refine ⟨fun h => ⟨hslots ▸ h.slots, ?_⟩, .of_slots hslots⟩
  intro id slot hslot hstate
  rw [hslots] at hslot
  obtain ⟨hcurrent, hmem⟩ := h.current id slot hslot hstate
  refine ⟨hgroups ▸ hcurrent, hlisted id hmem ?_⟩
  simp [running, hslot, hstate]

/-! ### Starting -/

section Starting

variable {groupTag : String} {now : ℕ}

theorem Service.replace_none (h : s.existing groupTag = none) : s.replace groupTag now = s := by
  simp only [replace, h]

theorem Service.replace_missing (h : s.existing groupTag = some id) (hslot : s.slots[id]? = none) :
    s.replace groupTag now = s := by
  simp only [replace, h]
  rw [modify_eq_self (List.getElem?_eq_none_iff.mp hslot)]

theorem Service.replace_some (h : s.existing groupTag = some id) (hslot : s.slots[id]? = some slot) :
    s.replace groupTag now = { s with
      slots := s.slots.set id (slot.cancel now "replaced" "replaced by a forced URL test session") } := by
  simp only [replace, h]
  rw [modify_eq_set hslot]

theorem Service.Leads.replace : s.Leads (s.replace groupTag now) := by
  cases hexisting : s.existing groupTag with
  | none =>
    rw [replace_none hexisting]
    exact .refl
  | some id =>
    cases hslot : s.slots[id]? with
    | none =>
      rw [replace_missing hexisting hslot]
      exact .refl
    | some slot =>
      rw [replace_some hexisting hslot]
      exact .set hslot (fun h => (h.get hslot).cancel) cancel_follows

theorem Service.replace_idle (h : s.Sound) (hslot : (s.replace groupTag now).slots[id]? = some slot)
    (hgroup : slot.session.groupTag = groupTag) : slot.session.state ≠ .running := by
  intro hstate
  have hexisting : s.existing groupTag = some id ∧ ∃ old, s.slots[id]? = some old := by
    have hkept : (s.replace groupTag now).urlTestSessionByGroup = s.urlTestSessionByGroup ∧
        (s.replace groupTag now).urlTestSessions = s.urlTestSessions ∧
        (s.replace groupTag now).slots.length = s.slots.length := by
      unfold replace
      split
      · exact ⟨rfl, rfl, rfl⟩
      · exact ⟨rfl, rfl, length_modify ..⟩
    have := existing_of_running (Leads.replace.sound h) hslot hstate
    rw [hgroup, existing, hkept.1, hkept.2.1] at this
    refine ⟨this, s.slots.get ⟨id, ?_⟩, getElem?_eq_getElem _⟩
    rw [← hkept.2.2]
    exact getElem?_lt hslot
  obtain ⟨hexisting, old, hold⟩ := hexisting
  rw [replace_some hexisting hold] at hslot
  exact set_ended cancel_state slot hslot hstate

variable {request : Request}

theorem Service.Sound.launch (h : s.Sound)
    (hidle : ∀ (id : ℕ) (slot : Slot), s.slots[id]? = some slot → slot.session.groupTag = request.groupTag →
      slot.session.state ≠ .running)
    {targets : List Target} (htargets : Distinct targets) (boxService : ℕ) :
    (s.launch boxService request targets now).Sound where
  slots := forall_mem_concat h.slots (newSlot_sound htargets ..)
  current := by
    intro id slot hslot hstate
    rcases getElem?_concat_cases hslot with hold | ⟨rfl, rfl⟩
    · obtain ⟨hcurrent, hlisted⟩ := h.current id slot hold hstate
      refine ⟨?_, mem_cons_of_mem _ hlisted⟩
      have hgroup : slot.session.groupTag ≠ request.groupTag := fun heq => hidle id slot hold heq hstate
      exact (Function.update_of_ne hgroup _ _).trans hcurrent
    · exact ⟨Function.update_self .., mem_cons_self⟩

theorem Service.Keeps.launch (s : Service) (boxService : ℕ) (request : Request) (targets : List Target) (now : ℕ) :
    s.Keeps (s.launch boxService request targets now) := by
  intro id slot hslot _
  exact ⟨slot, getElem?_append_of_some hslot, rfl⟩

theorem Service.Leads.start {boxService : ℕ} {manager : Manager}
    (hstart : s.startURLTest boxService manager request now order = some t) : s.Leads t := by
  unfold startURLTest at hstart
  split at hstart
  · cases hstart
    exact .refl
  · rename_i targets hresolve
    split_ifs at hstart
    · cases hstart
      exact .refl
    · have hreplace : s.Leads (s.replace request.groupTag now) := .replace
      refine .trans ⟨fun h => (hreplace.sound h).launch ?_ (resolve_distinct hresolve) _,
        hreplace.keeps.trans (.launch _ _ _ _ _)⟩ (.prune hstart)
      exact fun _ _ hslot hgroup => replace_idle h hslot hgroup

end Starting

/-! ### Cancelling and finishing -/

section Ending

variable {now : ℕ} {errorCode errorMessage : String}

theorem Service.Leads.drop : s.Leads (s.drop id now errorCode errorMessage) := by
  unfold Service.drop
  split
  · exact .refl
  · rename_i slot hslot
    split_ifs
    · refine .trans (.set hslot (fun h => (h.get hslot).cancel) cancel_follows) (.forget ?_ _)
      exact set_ended cancel_state
    · exact .refl

theorem Service.Leads.cancel : s.Leads (s.cancelURLTestSession id now) := by
  unfold cancelURLTestSession
  split_ifs
  · exact .drop
  · exact .refl

theorem Service.Leads.cancelAll (ids : List ℕ) (boxService : ℕ) (s : Service) : s.Leads (ids.foldl
      (fun s id => if s.ofInstance boxService id then s.drop id now errorCode errorMessage else s) s) := by
  induction ids generalizing s with
  | nil => exact .refl
  | cons id ids ih =>
    rw [foldl_cons]
    split_ifs
    · exact .trans .drop (ih _)
    · exact ih s

theorem Service.Leads.finish (hfinish : s.finishURLTestSession id now order = some t) : s.Leads t := by
  obtain ⟨slot, hslot, hrest⟩ := bind_eq_some_iff.mp hfinish
  split_ifs at hrest with hstage
  refine .trans (.trans (.set hslot (fun h => (h.get hslot).finish hstage now) (finish_follows now)) (.forget ?_ _))
    (.prune hrest)
  exact set_ended (finish_state now)

end Ending

/-! ### Whole runs -/

theorem step_leads {a : Step} (hstep : step s a = some t) : s.Leads t := by
  cases a with
  | start boxService manager request now order => exact .start hstep
  | move id move =>
    obtain ⟨slot, hslot, slot', hmove, rfl⟩ := bind_map_eq_some hstep
    exact .set hslot (fun h => (h.get hslot).move (h.isCurrent hslot) hmove) (move_follows hmove)
  | finish id now order => exact .finish hstep
  | cancel id now =>
    cases hstep
    exact .cancel
  | cancelForInstance boxService errorCode now =>
    cases hstep
    exact .cancelAll ..

theorem new_sound : new.Sound := ⟨by simp [new], by simp [new]⟩

theorem run_sound {acts : List Step} (h : Run step anyStep .new acts s) : s.Sound :=
  h.invariant (fun hsound _ hstep => (step_leads hstep).sound hsound) new_sound

theorem run_keeps {acts : List Step} (h : Run step anyStep s acts t) : s.Keeps t :=
  h.invariant (fun hkeeps _ hstep => hkeeps.trans (step_leads hstep).keeps) (.of_slots rfl)

structure Session.Exact (session : Session) (targets : List Target) : Prop where
  completed : session.completed = session.succeeded + session.failed
  results : session.completed = session.results.length
  total : session.completed ≤ session.total
  targets : session.resultTags ⊆ targets.map (·.managedResultTag)
  once : session.resultTags.Nodup

theorem Slot.Sound.exact (h : slot.Sound) : slot.session.Exact slot.runner.targets where
  completed := by rw [h.completed, h.counted]
  results := h.completed
  total := by
    have hlength := h.reported.length_le
    rw [Session.resultTags, length_map, length_map] at hlength
    rw [h.completed, h.total]
    exact hlength
  targets := h.reported.subset
  once := by
    obtain ⟨tags, hperm, hsub⟩ := h.reported
    exact hperm.nodup_iff.mp (h.distinct.resultTags.sublist hsub)

theorem sessions_exact {acts : List Step} (h : Run step anyStep .new acts s) :
    (∀ (id id' : ℕ) (slot slot' : Slot), s.slots[id]? = some slot → s.slots[id']? = some slot' →
      slot.session.state = .running → slot'.session.state = .running →
      slot.session.groupTag = slot'.session.groupTag → id = id') ∧
    (∀ slot ∈ s.slots, slot.session.Exact slot.runner.targets) ∧
    (∀ slot ∈ s.slots, slot.session.state = .succeeded ∨ slot.session.state = .failed →
      ∀ target ∈ slot.runner.targets, slot.session.resultTags.count target.managedResultTag = 1) ∧
    (∀ acts' t, Run step anyStep s acts' t → ∀ (id : ℕ) (slot : Slot), s.slots[id]? = some slot →
      slot.session.state ≠ .running → ∃ slot', t.slots[id]? = some slot' ∧ slot'.session = slot.session) := by
  have hsound := run_sound h
  refine ⟨?_, ?_, ?_, ?_⟩
  · intro id id' slot slot' hslot hslot' hstate hstate' hgroup
    exact hsound.running_unique hslot hstate hslot' hstate' hgroup
  · intro slot hslot
    exact (hsound.slots slot hslot).exact
  · intro slot hslot hstate target htarget
    have hsettled := (hsound.slots slot hslot).settled hstate
    rw [hsettled.count_eq]
    apply List.count_eq_one_of_mem (hsound.slots slot hslot).distinct.resultTags
    exact List.mem_map_of_mem htarget
  · intro acts' t hrun
    exact run_keeps hrun

def pairManager : Manager :=
  [("auto", ⟨"auto", some ["de", "nl", "de"], "de"⟩), ("de", ⟨"de", none, ""⟩), ("nl", ⟨"nl", none, ""⟩)]

def deadlineRun : List Step :=
  [.start 1 pairManager ⟨"auto", "", "nl", "", false, 1⟩ 10 [], .move 0 (.worker 0 .take), .move 0 (.worker 0 .recheck),
    .move 0 (.worker 0 (.probed 37 none)), .move 0 (.worker 0 (.check 20)), .move 0 (.ctxDone .deadlineExceeded),
    .move 0 (.worker 0 .record), .move 0 (.worker 0 .mark), .move 0 (.worker 0 .take), .move 0 (.worker 0 .recheck),
    .move 0 .collect, .move 0 (.checkRest 30), .move 0 .recordRest, .finish 0 30 []]

theorem sessions_exact_deadline :
    ∃ s slot, Run step anyStep .new deadlineRun s ∧ s.slots[0]? = some slot ∧ slot.session.state = .failed ∧
      slot.session.errorCode = "deadline" ∧ slot.session.resultTags = ["nl", "de"] ∧
      ∀ target ∈ slot.runner.targets, slot.session.resultTags.count target.managedResultTag = 1 := by
  have hexec : (exec step .new deadlineRun).any (fun s => (s.slots[0]?.any fun slot => slot.session.state = .failed ∧
      slot.session.errorCode = "deadline" ∧ slot.session.resultTags = ["nl", "de"]) = true) = true := by
    decide +kernel
  obtain ⟨s, hrun, hs⟩ := Run.exists_of_decide hexec
  obtain ⟨slot, hslot, hstate, hcode, htags⟩ := exists_some_of_decide hs
  exact ⟨s, slot, hrun, hslot, hstate, hcode, htags,
    (sessions_exact hrun).2.2.1 slot (List.mem_of_getElem? hslot) (.inr hstate)⟩

end Hydracore.Daemon.URLTest
