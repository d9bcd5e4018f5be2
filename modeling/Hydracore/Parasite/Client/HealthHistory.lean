import Hydracore.Parasite.Client.Health

namespace Hydracore.Parasite.Health

open Systems Hydracore.Runtime

structure Core where
  paths : ℕ
  everActive : Bool
  sawPath : Bool
  loop : Loop
  published : List Publication

def State.core (s : State) : Core := ⟨s.paths, s.everActive, s.sawPath, s.loop, s.published⟩

def Loop.reading : Loop → Bool
  | .measured .. | .questioned .. | .cleared .. | .loaded .. => true
  | _ => false

inductive Moved (c : Core) (a : Action) : Core → Prop
  | quiet : Moved c a c
  | added (h : a = .addPath) : Moved c a { c with paths := c.paths + 1, everActive := true }
  | removed (h : a = .removePath) (pos : 0 < c.paths) : Moved c a { c with paths := c.paths - 1 }
  | began (h : c.loop = .waiting) : Moved c a { c with loop := .sampled c.paths }
  | sampled {active : ℕ} {rtt : ℤ} (h : c.loop = .sampled active) :
      Moved c a { c with sawPath := c.sawPath || 0 < active, loop := .measured active rtt }
  | read {l : Loop} (h : c.loop.reading = true) (next : l.reading = true) : Moved c a { c with loop := l }
  | decided {workers active : ℕ} {rtt : ℤ} {challenge : Option RuntimeChallenge} {failure : Option TransportFailure}
      {pending : Bool} {snapshot : TransportHealthSnapshot} (h : c.loop = .loaded active rtt challenge failure)
      (state : snapshot.state = stateOf workers active challenge pending c.sawPath failure)
      (reported : snapshot.failure = failureOf active challenge snapshot.state failure) :
      Moved c a { c with loop := .decided snapshot }
  | published {snapshot : TransportHealthSnapshot} (h : c.loop = .decided snapshot) :
      Moved c a { c with loop := .waiting, published := c.published ++ [⟨snapshot, c.everActive⟩] }

theorem Moved.of_proceed {options : Options} {s t : State} {now rtt : ℤ}
    (h : s.loop.proceed options s now rtt = some t) : Moved s.core (.proceed now rtt) t.core := by
  cases hloop : s.loop with rw [hloop] at h
  | waiting =>
    cases h
  | sampled active =>
    cases h
    exact .sampled hloop
  | measured active rtt' | cleared active rtt' challenge =>
    cases h
    exact .read (by simp [State.core, hloop, Loop.reading]) rfl
  | questioned active rtt' challenge =>
    simp only [Loop.proceed] at h
    have hreading : s.core.loop.reading = true := by simp [State.core, hloop, Loop.reading]
    split_ifs at h
    all_goals
      cases h
      exact .read hreading rfl
  | loaded active rtt' challenge failure =>
    cases h
    exact .decided hloop rfl rfl
  | decided snapshot =>
    cases h
    exact .published hloop

variable {a : Action}

theorem Moved.of_begin {s t : State} (h : beginIteration s = some t) : Moved s.core a t.core := by
  unfold beginIteration at h
  split_ifs at h with hloop
  cases h
  exact .began hloop

theorem Moved.of_step {options : Options} {s t : State} (h : step options s a = some t) :
    Moved s.core a t.core := by
  cases a with
  | addPath =>
    cases h
    exact .added rfl
  | removePath =>
    simp only [step] at h
    split_ifs at h with hpos
    cases h
    exact .removed rfl hpos
  | dialFailed e | dialSucceeded | publishChallenge challenge | clearChallenge =>
    cases h
    exact .quiet
  | initialDone =>
    simp only [step] at h
    split_ifs at h
    cases h
    exact .quiet
  | tick => exact .of_begin h
  | woken =>
    simp only [step] at h
    split_ifs at h
    exact .of_begin (s := { s with healthWake := false }) h
  | proceed now rtt => exact .of_proceed h

def terminal (failure : Option TransportFailure) : Bool := failure.any TransportFailure.terminal

structure Seen (c : Core) : Prop where
  saw : c.sawPath = true → c.everActive = true
  present : 0 < c.paths → c.everActive = true
  sampled : ∀ active, c.loop = .sampled active → 0 < active → c.everActive = true
  decided : ∀ snapshot, c.loop = .decided snapshot → snapshot.state = .recovering → c.everActive = true
  published : ∀ p ∈ c.published, p.snapshot.state = .recovering → p.everActive = true

variable {workers active : ℕ} {challenge : Option RuntimeChallenge} {failure : Option TransportFailure}

theorem stateOf_recovering {pending sawPath : Bool}
    (h : stateOf workers active challenge pending sawPath failure = .recovering) : sawPath = true := by
  unfold stateOf at h
  split_ifs at h with _ _ _ _ _ hsaw
  simpa using hsaw

theorem stateOf_failed {pending sawPath : Bool}
    (h : stateOf workers active challenge pending sawPath failure = .failed) :
    challenge = none ∧ active = 0 ∧ failure.any (fun f => !sawPath || f.terminal) = true := by
  unfold stateOf at h
  split_ifs at h with hchallenge _ hactive _ hfailure
  exact ⟨by simpa using hchallenge, by omega, hfailure⟩

theorem Seen.moved {c d : Core} (hc : Seen c) (h : Moved c a d) : Seen d := by
  cases h with
  | quiet => exact hc
  | added h =>
    exact ⟨fun _ => rfl, fun _ => rfl, fun _ _ _ => rfl, fun _ _ _ => rfl, hc.published⟩
  | removed h pos =>
    exact ⟨hc.saw, fun _ => hc.present pos, hc.sampled, hc.decided, hc.published⟩
  | began h =>
    refine ⟨hc.saw, hc.present, ?_, fun _ hl => Loop.noConfusion hl, hc.published⟩
    rintro active ⟨⟩ hpos
    exact hc.present hpos
  | @sampled active rtt h =>
    refine ⟨?_, hc.present, fun _ hl => Loop.noConfusion hl, fun _ hl => Loop.noConfusion hl, hc.published⟩
    intro hsaw
    obtain hsaw | hpos := (Bool.or_eq_true _ _).mp hsaw
    · exact hc.saw hsaw
    · exact hc.sampled active h (of_decide_eq_true hpos)
  | @read l h next =>
    refine ⟨hc.saw, hc.present, ?_, ?_, hc.published⟩
    · rintro active rfl
      cases next
    · rintro snapshot rfl
      cases next
  | decided h state reported =>
    refine ⟨hc.saw, hc.present, fun _ hl => Loop.noConfusion hl, ?_, hc.published⟩
    rintro snapshot ⟨⟩ hrecovering
    exact hc.saw (stateOf_recovering (state ▸ hrecovering))
  | @published snapshot h =>
    refine ⟨hc.saw, hc.present, fun _ hl => Loop.noConfusion hl, fun _ hl => Loop.noConfusion hl, ?_⟩
    intro p hp hrecovering
    obtain hp | hp := List.mem_append.mp hp
    · exact hc.published p hp hrecovering
    · obtain rfl := List.mem_singleton.mp hp
      exact hc.decided snapshot h hrecovering

def observed (s : State) : Action → Bool
  | .addPath => s.sawPath ∨ s.loop = .waiting
  | .removePath => s.sawPath ∨ 1 < s.paths
  | _ => true

structure Observed (c : Core) : Prop where
  seen : c.everActive = true → c.sawPath = true ∨ c.loop = .waiting ∧ 0 < c.paths ∨
    ∃ active, 0 < active ∧ c.loop = .sampled active
  decided : ∀ snapshot, c.loop = .decided snapshot → c.sawPath = true → snapshot.state = .failed →
    terminal snapshot.failure = true
  published : ∀ p ∈ c.published, p.everActive = true → p.snapshot.state = .failed → terminal p.snapshot.failure = true

theorem failed_terminal {pending : Bool} {snapshot : TransportHealthSnapshot}
    (state : snapshot.state = stateOf workers active challenge pending true failure)
    (reported : snapshot.failure = failureOf active challenge snapshot.state failure)
    (hfailed : snapshot.state = .failed) : terminal snapshot.failure = true := by
  obtain ⟨rfl, rfl, hfailure⟩ := stateOf_failed (state.symm.trans hfailed)
  rw [reported, failureOf, hfailed, if_pos ⟨rfl, TransportState.noConfusion⟩]
  simpa [terminal] using hfailure

theorem Observed.moved {s : State} {d : Core} (hc : Observed s.core) (hmet : observed s a = true)
    (h : Moved s.core a d) : Observed d := by
  cases h with
  | quiet => exact hc
  | added h =>
    subst h
    simp only [observed, decide_eq_true_eq] at hmet
    refine ⟨fun _ => ?_, hc.decided, hc.published⟩
    exact hmet.imp id fun hwaiting => .inl ⟨hwaiting, Nat.succ_pos _⟩
  | removed h pos =>
    subst h
    simp only [observed, decide_eq_true_eq] at hmet
    refine ⟨fun hever => ?_, hc.decided, hc.published⟩
    obtain hsaw | hmore := hmet
    · exact .inl hsaw
    · refine (hc.seen hever).imp_right fun hrest => hrest.imp_left fun hwait => ⟨hwait.1, ?_⟩
      exact Nat.sub_pos_of_lt hmore
  | began h =>
    refine ⟨fun hever => ?_, fun _ hl => Loop.noConfusion hl, hc.published⟩
    obtain hsaw | ⟨-, hpos⟩ | ⟨active, -, hl⟩ := hc.seen hever
    · exact .inl hsaw
    · exact .inr (.inr ⟨_, hpos, rfl⟩)
    · rw [h] at hl
      cases hl
  | @sampled active rtt h =>
    refine ⟨fun hever => .inl ?_, fun _ hl => Loop.noConfusion hl, hc.published⟩
    obtain hsaw | ⟨hl, -⟩ | ⟨active', hpos, hl⟩ := hc.seen hever
    · exact Bool.or_eq_true_iff.mpr (.inl hsaw)
    · rw [h] at hl
      cases hl
    · obtain rfl : active = active' := by simpa using h.symm.trans hl
      exact Bool.or_eq_true_iff.mpr (.inr (decide_eq_true hpos))
  | @read l h next =>
    refine ⟨fun hever => .inl ?_, ?_, hc.published⟩
    · obtain hsaw | ⟨hl, -⟩ | ⟨active, -, hl⟩ := hc.seen hever
      · exact hsaw
      · rw [hl] at h
        cases h
      · rw [hl] at h
        cases h
    · rintro snapshot rfl
      cases next
  | decided h state reported =>
    refine ⟨fun hever => .inl ?_, ?_, hc.published⟩
    · obtain hsaw | ⟨hl, -⟩ | ⟨active, -, hl⟩ := hc.seen hever
      · exact hsaw
      · cases h.symm.trans hl
      · cases h.symm.trans hl
    · rintro snapshot ⟨⟩ hsaw hfailed
      exact failed_terminal (hsaw ▸ state) reported hfailed
  | @published snapshot h =>
    have hsaw (hever : s.core.everActive = true) : s.core.sawPath = true := by
      obtain hsaw | ⟨hl, -⟩ | ⟨active, -, hl⟩ := hc.seen hever
      · exact hsaw
      · cases h.symm.trans hl
      · cases h.symm.trans hl
    refine ⟨fun hever => .inl (hsaw hever), fun _ hl => Loop.noConfusion hl, ?_⟩
    intro p hp hever hfailed
    obtain hp | hp := List.mem_append.mp hp
    · exact hc.published p hp hever hfailed
    · obtain rfl := List.mem_singleton.mp hp
      exact hc.decided snapshot h (hsaw hever) hfailed

theorem published_health (options : Options) (challenge : Option RuntimeChallenge) :
    (∀ as s, Run (step options) anyStep (connected options challenge) as s →
      ∀ p ∈ s.published, p.everActive = false → p.snapshot.state ≠ .recovering) ∧
    (∀ as s, Run (step options) (observed · ·) (connected options challenge) as s →
      ∀ p ∈ s.published, p.everActive = true → p.snapshot.state = .failed → terminal p.snapshot.failure = true) := by
  constructor
  · intro as s h p hp hnever hrecovering
    have hseen : Seen s.core := by
      apply h.invariant
      · intro t a u ht _ hstep
        exact ht.moved (.of_step hstep)
      · constructor <;> simp [connected, State.core]
    have hever := hseen.published p hp hrecovering
    rw [hnever] at hever
    cases hever
  · intro as s h
    have hobserved : Observed s.core := by
      apply h.invariant
      · intro t a u ht hmet hstep
        exact ht.moved hmet (.of_step hstep)
      · constructor <;> simp [connected, State.core]
    exact hobserved.published

def fourWorkers : Options := ⟨"call", 4⟩

def iteration : List Action := .tick :: List.replicate 6 (.proceed 7 20)

def losing (between : List Action) : List Action :=
  [Action.dialSucceeded, .addPath, .initialDone] ++ between ++
    [Action.removePath, .dialFailed .other, .initialDone, .initialDone, .initialDone] ++ iteration

def reports (p : Publication) : Bool × TransportState := (p.everActive, p.snapshot.state)

theorem published_health_losing : ∃ s,
    execWhile (step fourWorkers) observed (connected fourWorkers none) (losing iteration) = some s ∧
      s.published.map reports = [(true, .degraded), (true, .recovering)] ∧
      ∀ p ∈ s.published, p.everActive = true → p.snapshot.state = .failed → terminal p.snapshot.failure = true := by
  refine (exists_some_of_decide ?_).imp fun s ⟨hs, hreports⟩ =>
    ⟨hs, hreports, (published_health fourWorkers none).2 _ s (.of_execWhile hs)⟩
  decide

theorem unseen_path_failed : ¬ ∀ as s, Run (step fourWorkers) anyStep (connected fourWorkers none) as s →
    ∀ p ∈ s.published, p.everActive = true → p.snapshot.state = .failed → terminal p.snapshot.failure = true := by
  intro hterminal
  obtain ⟨s, hs, p, hp, hever, hfailed, hretryable⟩ := exists_some_of_decide (P := fun s => ∃ p ∈ s.published,
    p.everActive = true ∧ p.snapshot.state = .failed ∧ terminal p.snapshot.failure = false)
    (o := exec (step fourWorkers) (connected fourWorkers none) (losing [])) (by decide)
  cases hretryable.symm.trans (hterminal _ s (.of_exec hs) p hp hever hfailed)

end Hydracore.Parasite.Health
