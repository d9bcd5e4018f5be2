import Hydracore.Runtime.Transport

namespace Hydracore.Runtime

open Systems RuntimeTransport TransportHealthSnapshot

structure Measured where
  state : TransportState
  activeLanes : ℕ
  totalLanes : ℕ
  failure : Option TransportFailure
deriving DecidableEq

def TransportHealthSnapshot.measured (h : TransportHealthSnapshot) : Measured :=
  ⟨h.state, h.activeLanes, h.totalLanes, h.failure⟩

def TransportHealthSnapshot.shown (h : TransportHealthSnapshot) : Measured :=
  ⟨if h.state = .unset then .starting else h.state, h.activeLanes, h.totalLanes, h.failure⟩

def resetMeasured : Measured := ⟨.starting, 0, 0, none⟩

def Attributed (s : State) (report : TransportHealthSnapshot) (state : TransportState) : Prop :=
  let measured : Measured := ⟨state, report.activeLanes, report.totalLanes, report.failure⟩
  measured = resetMeasured ∨ ∃ snapshot, (report.runtimeGeneration, snapshot) ∈ s.published ∧ measured = snapshot.measured

def Isolated (s : State) : Prop :=
  ∀ challenged now, ∃ state,
    (s.transport.currentTransportHealth challenged now).state = (if challenged then .waitingUser else state) ∧
      Attributed s (s.transport.currentTransportHealth challenged now) state

def settles (s : State) : Action → Bool
  | .advance i _ =>
    match s.calls[i]? with
    | some (.setting generation) =>
      s.transport.health.shown = resetMeasured ∨ s.transport.health.runtimeGeneration = generation
    | _ => true
  | _ => true

inductive Stepped (s : State) (a : Action) (t : State) : Prop
  | quiet (health : t.transport.health = s.transport.health) (generation : t.transport.generation = s.transport.generation)
      (published : t.published = s.published)
  | dropped (g : UInt64) (snapshot : TransportHealthSnapshot) (transport : t.transport = s.transport)
      (published : t.published = s.published ++ [(g, snapshot)])
  | published (g : UInt64) (snapshot : TransportHealthSnapshot) (named : snapshot.state ≠ .unset)
      (health : t.transport.health = { snapshot with runtimeGeneration := g })
      (generation : t.transport.generation = g) (published : t.published = s.published ++ [(g, snapshot)])
  | reset (health : t.transport.health.measured = resetMeasured)
  | set (i : ℕ) (g : UInt64) (now : ℤ) (action : a = .advance i now) (call : s.calls[i]? = some (.setting g))
      (health : t.transport.health = s.transport.health) (generation : t.transport.generation = g)
      (published : t.published = s.published)

theorem completed_state (snapshot : TransportHealthSnapshot) (now : ℤ) : (completed snapshot now).state ≠ .unset := by
  unfold completed
  by_cases hstate : snapshot.state = .unset
  · simp only [if_pos hstate]
    split_ifs
    all_goals exact TransportState.noConfusion
  · simp only [if_neg hstate]
    split_ifs
    · exact hstate
    · exact hstate

section

variable (r : RuntimeTransport)

theorem publish_health {g : UInt64} (snapshot : TransportHealthSnapshot) (now : ℤ) (h : ¬ g < r.generation) :
    (r.publishTransportHealth g snapshot now).health = { completed snapshot now with runtimeGeneration := g } ∧
      (r.publishTransportHealth g snapshot now).generation = g := by
  unfold publishTransportHealth
  dsimp only
  split_ifs
  · exact ⟨rfl, rfl⟩
  · exact ⟨rfl, rfl⟩

theorem publishChallenge_health (challenge : RuntimeChallenge) (cancel : Option ℕ) :
    (r.publishRuntimeChallenge challenge cancel).health = r.health ∧
      (r.publishRuntimeChallenge challenge cancel).generation = r.generation := by
  unfold publishRuntimeChallenge
  dsimp only
  split_ifs
  · exact ⟨rfl, rfl⟩
  · exact ⟨rfl, rfl⟩

theorem clearChallenge_health (id : String) :
    (r.clearRuntimeChallenge id).health = r.health ∧ (r.clearRuntimeChallenge id).generation = r.generation := by
  unfold clearRuntimeChallenge
  split_ifs
  · exact ⟨rfl, rfl⟩
  · exact ⟨rfl, rfl⟩

theorem cancelChallenge_health (id : String) :
    (r.cancelRuntimeChallenge id).1.health = r.health ∧ (r.cancelRuntimeChallenge id).1.generation = r.generation := by
  unfold cancelRuntimeChallenge
  split_ifs
  · exact ⟨rfl, rfl⟩
  · exact ⟨rfl, rfl⟩

end

theorem Stepped.of_step {s t : State} {a : Action} (h : step s a = some t) : Stepped s a t := by
  cases a with
  | publish g snapshot now =>
    cases h
    by_cases hold : g < s.transport.generation
    · exact .dropped g (completed snapshot now) (if_pos hold) rfl
    · obtain ⟨hhealth, hgen⟩ := publish_health s.transport snapshot now hold
      exact .published g (completed snapshot now) (completed_state snapshot now) hhealth hgen rfl
  | publishChallenge challenge cancel =>
    cases h
    obtain ⟨hhealth, hgen⟩ := publishChallenge_health s.transport challenge cancel
    exact .quiet hhealth hgen rfl
  | clearChallenge id =>
    cases h
    obtain ⟨hhealth, hgen⟩ := clearChallenge_health s.transport id
    exact .quiet hhealth hgen rfl
  | cancelChallenge id =>
    cases h
    obtain ⟨hhealth, hgen⟩ := cancelChallenge_health s.transport id
    exact .quiet hhealth hgen rfl
  | startOrReload runtimeGeneration | closeService =>
    cases h
    exact .quiet rfl rfl rfl
  | advance i now =>
    obtain ⟨call, hcall, h⟩ := Option.bind_eq_some_iff.mp h
    cases call with
    | cancelling g =>
      cases h
      obtain ⟨hhealth, hgen⟩ := cancelChallenge_health s.transport ""
      exact .quiet hhealth hgen rfl
    | resetting g =>
      cases g with
      | none | some g =>
        cases h
        exact .reset rfl
    | setting g =>
      cases h
      exact .set i g now rfl hcall rfl rfl rfl
    | returned => cases h

def Held (s : State) : Prop :=
  s.transport.health.shown = resetMeasured ∨
    s.transport.health.state ≠ .unset ∧ s.transport.health.runtimeGeneration = s.transport.generation ∧
      ∃ snapshot, (s.transport.generation, snapshot) ∈ s.published ∧ s.transport.health.measured = snapshot.measured

theorem shown_of_named {h : TransportHealthSnapshot} (hstate : h.state ≠ .unset) : h.shown = h.measured := by
  simp only [shown, if_neg hstate, measured]

theorem Held.step {s t : State} {a : Action} (hs : Held s) (hmet : settles s a = true) (h : Stepped s a t) :
    Held t := by
  cases h with
  | quiet health generation published =>
    unfold Held
    rw [health, generation, published]
    exact hs
  | dropped g snapshot transport published =>
    unfold Held
    rw [transport, published]
    refine hs.imp_right fun ⟨hstate, hstamp, snapshot, hmem, heq⟩ => ?_
    exact ⟨hstate, hstamp, snapshot, List.mem_append_left _ hmem, heq⟩
  | published g snapshot named health generation published =>
    right
    rw [health, generation, published]
    exact ⟨named, rfl, snapshot, by simp, rfl⟩
  | reset health =>
    left
    have hstate : t.transport.health.state ≠ .unset := by
      have := congrArg Measured.state health
      intro hunset
      rw [measured, hunset] at this
      cases this
    rw [shown_of_named hstate, health]
  | set i g now action call health generation published =>
    subst action
    simp only [settles, call, decide_eq_true_eq] at hmet
    unfold Held
    rw [health, generation, published]
    obtain hreset | ⟨hstate, hstamp, hsnapshot⟩ := hs
    · exact .inl hreset
    · obtain hreset | hsame := hmet
      · exact .inl hreset
      · right
        refine ⟨hstate, hsame, ?_⟩
        rw [← hsame, hstamp]
        exact hsnapshot

theorem current_reads (r : RuntimeTransport) (challenged : Bool) (now : ℤ) :
    (r.currentTransportHealth challenged now).activeLanes = r.health.activeLanes ∧
      (r.currentTransportHealth challenged now).totalLanes = r.health.totalLanes ∧
      (r.currentTransportHealth challenged now).failure = r.health.failure ∧
      (r.currentTransportHealth challenged now).runtimeGeneration = r.generation ∧
      (r.currentTransportHealth challenged now).state =
        (if challenged then .waitingUser else r.health.shown.state) := by
  unfold currentTransportHealth shown
  dsimp only
  split_ifs
  all_goals exact ⟨rfl, rfl, rfl, rfl, rfl⟩

theorem Held.isolated {s : State} (hs : Held s) : Isolated s := by
  intro challenged now
  obtain ⟨hactive, htotal, hfailure, hgen, hstate⟩ := current_reads s.transport challenged now
  refine ⟨_, hstate, ?_⟩
  unfold Attributed
  rw [hactive, htotal, hfailure, hgen]
  obtain hreset | ⟨hnamed, -, snapshot, hmem, heq⟩ := hs
  · exact .inl hreset
  · right
    refine ⟨snapshot, hmem, ?_⟩
    rw [← heq, ← shown_of_named hnamed]
    rfl

theorem isolated_of_settled {as : List Action} {s : State} (h : Run step (settles · ·) {} as s) : Isolated s := by
  have hheld : Held s := by
    apply h.invariant
    · intro t a u ht hmet hstep
      exact ht.step hmet (.of_step hstep)
    · exact .inl rfl
  exact hheld.isolated

def failing : TransportHealthSnapshot := { state := .failed, totalLanes := 4, observedAt := 5 }

def orderly : List Action :=
  [.startOrReload (some 1), .advance 0 1, .advance 0 1, .advance 0 1, .publish 1 failing 5,
    .startOrReload (some 2), .advance 1 6, .advance 1 6, .advance 1 6, .publish 1 failing 7]

theorem isolated_orderly : ∃ s, execWhile step settles {} orderly = some s ∧ s.transport.generation = 2 ∧ Isolated s := by
  refine ⟨(execWhile step settles {} orderly).get rfl, (Option.some_get _).symm, rfl, ?_⟩
  exact isolated_of_settled (.of_execWhile (Option.some_get _).symm)

def overtaken : List Action :=
  [.startOrReload (some 1), .advance 0 1, .advance 0 1, .advance 0 1, .publish 1 failing 5,
    .startOrReload (some 2), .advance 1 6, .advance 1 6, .publish 1 failing 7, .advance 1 8]

theorem leftover_reported : ¬ ∀ as s, Run step anyStep {} as s → Isolated s := by
  intro hisolated
  obtain ⟨s, hs, hgen, hfailed, hold⟩ := exists_some_of_decide (P := fun s => s.transport.generation = 2 ∧
    s.transport.health.shown.state = .failed ∧ ∀ p ∈ s.published, p.1 = 1) (o := exec step {} overtaken) (by decide)
  obtain ⟨state, hstate, hfrom⟩ := hisolated overtaken s (.of_exec hs) false 9
  obtain ⟨-, -, -, hstamp, hshown⟩ := current_reads s.transport false 9
  obtain rfl : state = .failed := by simpa [hshown, hfailed] using hstate.symm
  obtain hreset | ⟨snapshot, hmem, -⟩ := hfrom
  · cases congrArg Measured.state hreset
  · rw [hstamp, hgen] at hmem
    exact absurd (hold _ hmem) (by decide : ¬ (2 : UInt64) = 1)

end Hydracore.Runtime
