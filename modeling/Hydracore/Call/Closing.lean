import Hydracore.Systems.Runs
import Hydracore.Systems.Tasks

/-!
`Close` of a `RelayBridge` among calls of `DialContext` and `ListenPacket` whose contexts are never done.
-/

namespace Hydracore.Call.Closing

open Systems List Option

inductive Kind
  | dial
  | listen
  deriving DecidableEq

/-- `admitted` is past the test of `closed`, `failed` has returned an error. -/
inductive Stage
  | called
  | admitted
  | awaiting
  | returned
  | failed
  deriving DecidableEq

/-- `stored`, `closed` and `rdy` are those of the connection the call makes, `rdy` holds whether there is an error. `due`
says that the entry was there when `Range` began. -/
structure User where
  kind : Kind
  ipv6 : Bool
  stage : Stage
  stored : Bool
  closed : Bool
  rdy : Option Bool
  due : Bool

inductive Sweep
  | idle
  | marked
  | ranging (kind : Kind)
  | done
  deriving DecidableEq

structure RelayBridge where
  closed : Bool
  ready : Bool
  sweep : Sweep
  users : List User

inductive Step
  | call (kind : Kind) (ipv6 : Bool)
  | advance (i : ℕ)
  | answer (i : ℕ) (err : Bool)
  | markReady
  | close
  | range
  | visit (i : ℕ)

namespace User

variable (c : User)

def advance (closed ready : Bool) : Option User :=
  match c.stage with
  | .called => some { c with stage := if closed || c.ipv6 then .failed else .admitted }
  | .admitted =>
    if ready then some { c with stored := true, stage := if c.kind = .dial then .awaiting else .returned } else none
  | .awaiting => c.rdy.map fun err =>
    if err || c.closed then { c with stored := false, stage := .failed } else { c with stage := .returned }
  | .returned | .failed => none

def close : User := { c with stored := false, closed := true, rdy := c.rdy.or (some true) }

end User

def Sweep.next : Sweep → Option Sweep
  | .marked => some (.ranging .dial)
  | .ranging .dial => some (.ranging .listen)
  | .ranging .listen => some .done
  | .idle | .done => none

def Sweep.past : Sweep → Kind → Bool
  | .ranging .listen, .dial | .done, _ => true
  | _, _ => false

namespace RelayBridge

def start : RelayBridge := ⟨false, false, .idle, []⟩

section

variable (s : RelayBridge)

def update (i : ℕ) (f : User → Option User) : Option RelayBridge :=
  s.users[i]?.bind fun c => (f c).map fun c' => { s with users := s.users.set i c' }

def step : Step → Option RelayBridge
  | .call kind ipv6 => some { s with users := s.users ++ [⟨kind, ipv6, .called, false, false, none, false⟩] }
  | .advance i => s.update i (·.advance s.closed s.ready)
  | .answer i err => s.update i fun c => if c.stored then some { c with rdy := c.rdy.or (some err) } else none
  | .markReady => some { s with ready := true }
  | .close => if s.closed then none else some { s with closed := true, sweep := .marked }
  | .range =>
    if s.users.any fun c => c.due && c.stored then none
    else s.sweep.next.map fun sweep => { s with
      sweep := sweep
      users := s.users.map fun c => { c with due := c.stored && decide (sweep = .ranging c.kind) } }
  | .visit i => s.update i fun c => if c.stored && decide (s.sweep = .ranging c.kind) then some c.close else none

def unadmitted : Step → Bool
  | .close => s.users.all fun c => decide (c.stage ≠ .admitted)
  | _ => true

end

end RelayBridge

structure User.Sound (closed : Bool) (sweep : Sweep) (c : User) : Prop where
  admitted : closed = true → c.stage ≠ .admitted
  ended : c.stage = .awaiting ∨ c.stage = .returned → c.stored = true ∨ c.closed = true ∧ c.rdy.isSome = true
  swept : sweep.past c.kind = true → c.stored = false
  due : sweep = .ranging c.kind → c.stored = true → c.due = true

variable {c c' : User} {closed ready : Bool} {sweep sweep' : Sweep}

theorem User.Sound.advance (h : c.Sound closed sweep) (hidle : closed = false → sweep = .idle)
    (hs : c.advance closed ready = some c') : c'.Sound closed sweep := by
  unfold User.advance at hs
  split at hs
  · cases hs
    refine ⟨fun hclosed => ?_, fun hstage => ?_, h.swept, h.due⟩
    · simp [hclosed]
    · split_ifs at hstage <;> simp at hstage
  · next hstage =>
    obtain ⟨-, hs⟩ := ite_none_right_eq_some.mp hs
    cases hs
    have hopen : closed = false := by
      by_contra hclosed
      exact h.admitted (Bool.eq_true_of_not_eq_false hclosed) hstage
    cases hidle hopen
    refine ⟨fun hclosed => ?_, fun _ => .inl rfl, nofun, nofun⟩
    rw [hopen] at hclosed
    cases hclosed
  · next hstage =>
    obtain ⟨err, -, rfl⟩ := map_eq_some_iff.mp hs
    split_ifs
    · exact ⟨fun _ => nofun, nofun, fun _ => rfl, nofun⟩
    · exact ⟨fun _ => nofun, fun _ => h.ended (.inl hstage), h.swept, h.due⟩
  · cases hs
  · cases hs

theorem User.Sound.close (h : c.Sound closed sweep) : c.close.Sound closed sweep :=
  ⟨h.admitted, fun _ => .inr ⟨rfl, by simp [User.close]⟩, fun _ => rfl, nofun⟩

namespace RelayBridge

variable {s s' : RelayBridge} {a : Step}

structure Sound (s : RelayBridge) : Prop where
  idle : s.closed = false → s.sweep = .idle
  users : ∀ c ∈ s.users, c.Sound s.closed s.sweep

theorem Sound.update (h : Sound s) {i : ℕ} {f : User → Option User} (hs : s.update i f = some s')
    (hf : ∀ c c', c.Sound s.closed s.sweep → f c = some c' → c'.Sound s.closed s.sweep) : Sound s' := by
  obtain ⟨c, hc, c', hc', rfl⟩ := bind_map_eq_some hs
  exact ⟨h.idle, forall_mem_set h.users (hf c c' (h.users c (mem_of_getElem? hc)) hc')⟩

theorem past_next (h : sweep.next = some sweep') (kind : Kind) (hpast : sweep'.past kind = true) :
    sweep.past kind = true ∨ sweep = .ranging kind := by
  unfold Sweep.next at h
  split at h <;> cases h <;> cases kind <;> first | exact .inl hpast | exact .inr rfl

theorem Sound.step (h : Sound s) (hmet : s.unadmitted a = true) (hs : s.step a = some s') : Sound s' := by
  cases a with
  | call kind ipv6 =>
    cases hs
    exact ⟨h.idle, forall_mem_concat h.users ⟨fun _ => nofun, nofun, fun _ => rfl, nofun⟩⟩
  | advance i => exact h.update hs fun c c' hc hadvance => hc.advance h.idle hadvance
  | answer i err =>
    refine h.update hs fun c c' hc hanswer => ?_
    obtain ⟨hstored, hanswer⟩ := ite_none_right_eq_some.mp hanswer
    cases hanswer
    exact ⟨hc.admitted, fun _ => .inl hstored, hc.swept, hc.due⟩
  | markReady =>
    cases hs
    exact ⟨h.idle, h.users⟩
  | close =>
    obtain ⟨-, hs⟩ := ite_none_left_eq_some.mp hs
    cases hs
    refine ⟨nofun, fun c hc => ⟨fun _ => ?_, (h.users c hc).ended, nofun, nofun⟩⟩
    simpa using all_eq_true.mp hmet c hc
  | range =>
    obtain ⟨hover, hs⟩ := ite_none_left_eq_some.mp hs
    obtain ⟨sweep, hnext, rfl⟩ := map_eq_some_iff.mp hs
    refine ⟨fun hopen => ?_, fun c' hc' => ?_⟩
    · rw [h.idle hopen] at hnext
      cases hnext
    · obtain ⟨c, hc, rfl⟩ := mem_map.mp hc'
      have hsound := h.users c hc
      refine ⟨hsound.admitted, hsound.ended, fun hpast => ?_, fun hranging hstored => by simp_all⟩
      rcases past_next hnext c.kind hpast with hbefore | hranging
      · exact hsound.swept hbefore
      · by_contra hleft
        have hstored : c.stored = true := Bool.eq_true_of_not_eq_false hleft
        exact hover (any_eq_true.mpr ⟨c, hc, by simp [hstored, hsound.due hranging hstored]⟩)
  | visit i =>
    refine h.update hs fun c c' hc hvisit => ?_
    obtain ⟨-, hvisit⟩ := ite_none_right_eq_some.mp hvisit
    cases hvisit
    exact hc.close

theorem close_ends_users {acts : List Step} (h : Run step (unadmitted · ·) start acts s) (hdone : s.sweep = .done) :
    ∀ c ∈ s.users, c.stored = false ∧ (c.stage = .failed ∨ c.stage = .returned ∧ c.closed = true ∨
      (c.advance s.closed s.ready).map User.stage = some .failed) := by
  have hsound : Sound s := h.invariant .step ⟨fun _ => rfl, nofun⟩
  intro c hc
  have hclosed : s.closed = true := by
    by_contra hopen
    cases (hsound.idle (Bool.eq_false_of_not_eq_true hopen)).symm.trans hdone
  have hsound := hsound.users c hc
  have hstored : c.stored = false := hsound.swept (by rw [hdone, Sweep.past])
  have hended := hsound.ended
  rw [hstored] at hended
  refine ⟨hstored, ?_⟩
  cases hstage : c.stage with
  | called => exact .inr (.inr (by simp [User.advance, hstage, hclosed]))
  | admitted => exact absurd hstage (hsound.admitted hclosed)
  | awaiting =>
    obtain ⟨hshut, hrdy⟩ := (hended (.inl hstage)).resolve_left nofun
    obtain ⟨err, herr⟩ := isSome_iff_exists.mp hrdy
    exact .inr (.inr (by simp [User.advance, hstage, herr, hshut]))
  | returned => exact .inr (.inl ⟨rfl, ((hended (.inr hstage)).resolve_left nofun).1⟩)
  | failed => exact .inl rfl

theorem close_ends_both : ∃ s, Run step (unadmitted · ·) start
      [.markReady, .call .dial false, .advance 0, .advance 0, .call .listen false, .advance 1, .advance 1, .close,
        .range, .visit 0, .range, .visit 1, .range] s ∧
    s.sweep = .done ∧ s.users.length = 2 ∧ ∀ c ∈ s.users, c.stored = false := by
  refine (Run.exists_of_decideWhile (P := fun s => s.sweep = .done ∧ s.users.length = 2) ?_).imp
    fun s ⟨hrun, hdone, hs⟩ => ⟨hrun, hdone, hs, fun c hc => (close_ends_users hrun hdone c hc).1⟩
  decide +kernel

def late (kind : Kind) : List Step :=
  [.markReady, .call kind false, .advance 0, .close, .range, .range, .range, .advance 0]

theorem admitted_user_left : (∃ s, Run step anyStep start (late .listen) s ∧ s.sweep = .done ∧
      ∀ c ∈ s.users, c.stage = .returned ∧ c.stored = true ∧ c.closed = false) ∧
    ∃ s, Run step anyStep start (late .dial) s ∧ s.sweep = .done ∧
      ∀ c ∈ s.users, c.stage = .awaiting ∧ c.stored = true ∧ c.rdy = none := by
  refine ⟨Run.exists_of_decide ?_, Run.exists_of_decide ?_⟩
  · decide +kernel
  · decide +kernel

end RelayBridge

end Hydracore.Call.Closing
