import Hydracore.Daemon.Sessions

namespace Hydracore.Daemon.URLTest

open Hydracore.Systems List Option

/-- A call of `StoreURLTestHistory` to come; `worker` is `none` in the pass over the unmeasured targets. -/
structure Store where
  id : ℕ
  worker : Option ℕ
  tag : String
  result : Result

structure Stored where
  store : Store
  running : Bool
  outdated : List ℕ

structure History where
  service : Service
  pending : List Store
  stored : List Stored

def History.new : History := ⟨.new, [], []⟩

def Slot.stores (slot : Slot) (id : ℕ) : Move → List Store
  | .worker w .record =>
    match slot.runner.workers[w]? with
    | some (.recording target now delay err) => [⟨id, some w, target.tag, managedResult target now delay err⟩]
    | _ => []
  | .recordRest =>
    match slot.runner.stage with
    | .recording target now _ =>
      [⟨id, none, target.tag, managedResult target now 0 (some errURLTestNotMeasured)⟩]
    | _ => []
  | _ => []

-- `recordURLTestResult` answers false, and nothing is stored, when the session is not running
def Service.stores (s : Service) : Step → List Store
  | .move id move => if s.running id then (s.slots[id]?.map (·.stores id move)).getD [] else []
  | _ => []

/-- The sessions that have ended, and those of the same group that were started earlier. -/
def Service.outdated (s : Service) (id : ℕ) : List ℕ :=
  (range s.slots.length).filter fun id' => !s.running id' ∨
    id' < id ∧ s.slots[id']?.map (·.session.groupTag) = s.slots[id]?.map (·.session.groupTag)

/-- The goroutine that has to store takes no other step before. -/
def History.storing (w : History) : Step → Bool
  | .move id (.worker k _) => w.pending.any fun store => store.id = id ∧ store.worker = some k
  | .move _ (.ctxDone _) => false
  | .move id _ | .finish id _ _ => w.pending.any fun store => store.id = id ∧ store.worker = none
  | _ => false

inductive HistoryStep
  | service (a : Step)
  | store (k : ℕ)

def History.step (w : History) : HistoryStep → Option History
  | .service a =>
    if w.storing a then none
    else (URLTest.step w.service a).map fun s => { w with service := s, pending := w.pending ++ w.service.stores a }
  | .store k =>
    (w.pending[k]?).map fun store =>
      { w with
        pending := w.pending.eraseIdx k
        stored := ⟨store, w.service.running store.id, w.service.outdated store.id⟩ :: w.stored }

/-- No session is ended between a result it records and the store of that result. -/
def History.undisturbed (w : History) (a : HistoryStep) : Bool :=
  (w.step a).all fun w' => w'.pending.all fun store => w'.service.running store.id

structure Current (stored : List Stored) : Prop where
  running : ∀ e ∈ stored, e.running = true
  newest : stored.Pairwise fun later earlier => later.store.id ∉ earlier.outdated

structure History.Kept (w : History) : Prop where
  current : Current w.stored
  sound : w.service.Sound
  pending : ∀ store ∈ w.pending, w.service.running store.id = true
  ended : ∀ e ∈ w.stored, ∀ id ∈ e.outdated, ∃ slot, w.service.slots[id]? = some slot ∧ slot.session.state ≠ .running

variable {w w' : History} {s : Service} {id id' : ℕ}

theorem Service.running_iff :
    s.running id = true ↔ ∃ slot, s.slots[id]? = some slot ∧ slot.session.state = .running := by
  simp [Service.running, Option.any_eq_true]

theorem Service.Sound.ended_of_outdated (h : s.Sound) (hrunning : s.running id = true)
    (hid : id' ∈ s.outdated id) : ∃ slot, s.slots[id']? = some slot ∧ slot.session.state ≠ .running := by
  obtain ⟨hlt, hid⟩ := mem_filter.mp hid
  have hslot' := getElem?_eq_getElem (mem_range.mp hlt)
  refine ⟨_, hslot', fun hstate' => ?_⟩
  obtain ⟨slot, hslot, hstate⟩ := Service.running_iff.mp hrunning
  rw [decide_eq_true_eq, Service.running_iff.mpr ⟨_, hslot', hstate'⟩, hslot, hslot'] at hid
  obtain ⟨hearlier, hgroup⟩ := hid.resolve_left (by simp)
  exact hearlier.ne (h.running_unique hslot' hstate' hslot hstate (some.inj hgroup))

theorem History.Kept.step {a : HistoryStep} (h : w.Kept) (hmet : w.undisturbed a = true)
    (hstep : w.step a = some w') : w'.Kept := by
  have hpending : ∀ store ∈ w'.pending, w'.service.running store.id = true := by
    simpa [History.undisturbed, hstep] using hmet
  cases a with
  | service a =>
    simp only [History.step] at hstep
    split_ifs at hstep
    obtain ⟨s, hs, rfl⟩ := map_eq_some_iff.mp hstep
    refine ⟨h.current, (step_leads hs).sound h.sound, hpending, fun e he id hid => ?_⟩
    obtain ⟨slot, hslot, hstate⟩ := h.ended e he id hid
    obtain ⟨slot', hslot', hsame⟩ := (step_leads hs).keeps id slot hslot hstate
    exact ⟨slot', hslot', hsame ▸ hstate⟩
  | store k =>
    obtain ⟨store, hstore, rfl⟩ := map_eq_some_iff.mp hstep
    have hrunning := h.pending store (mem_of_getElem? hstore)
    refine ⟨⟨?_, pairwise_cons.mpr ⟨fun e he hid => ?_, h.current.newest⟩⟩, h.sound, hpending, ?_⟩
    · exact forall_mem_cons.mpr ⟨hrunning, h.current.running⟩
    · -- a session outdated when another one stored had ended by then, so it has no store to come
      obtain ⟨slot, hslot, hstate⟩ := h.ended e he store.id hid
      obtain ⟨slot', hslot', hstate'⟩ := Service.running_iff.mp hrunning
      cases hslot.symm.trans hslot'
      exact hstate hstate'
    · exact forall_mem_cons.mpr ⟨fun id hid => h.sound.ended_of_outdated hrunning hid, h.ended⟩

theorem stores_current {acts : List HistoryStep} (h : Run History.step (History.undisturbed · ·) .new acts w) :
    Current w.stored := by
  have h0 : History.new.Kept := ⟨⟨forall_mem_nil _, .nil⟩, new_sound, forall_mem_nil _, forall_mem_nil _⟩
  exact (h.invariant .step h0).current

def probeRun (id now : ℕ) : List HistoryStep :=
  [.start 1 pairManager ⟨"auto", "", "nl", "", true, 1⟩ now [], .move id (.worker 0 .take),
    .move id (.worker 0 .recheck), .move id (.worker 0 (.probed 37 none)), .move id (.worker 0 (.check now)),
    .move id (.worker 0 .record)].map .service

theorem stores_current_replaced : ∃ w, Run History.step (History.undisturbed · ·) .new
    (probeRun 0 10 ++ [.store 0] ++ probeRun 1 20 ++ [.store 0]) w ∧ Current w.stored ∧
    w.stored.map (fun e => (e.store.id, e.store.tag, e.outdated)) = [(1, "nl", [0]), (0, "nl", [])] := by
  refine (Run.exists_of_decideWhile ?_).imp fun w ⟨hrun, hw⟩ => ⟨hrun, stores_current hrun, hw⟩
  decide +kernel

theorem replaced_session_stores_last : ∃ w, Run History.step anyStep .new
    (probeRun 0 10 ++ probeRun 1 20 ++ [.store 1, .store 0]) w ∧
    w.stored.map (fun e => (e.store.id, e.store.tag, e.running, e.outdated)) =
      [(0, "nl", false, [0]), (1, "nl", true, [0])] := by
  apply Run.exists_of_decide
  decide +kernel

end Hydracore.Daemon.URLTest
