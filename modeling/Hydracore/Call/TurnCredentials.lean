import Hydracore.Systems.Runs
import Hydracore.Systems.Tasks

namespace Hydracore.Call.Turn

open Systems List Option Function

variable {κ σ ε : Type}

inductive Outcome (σ ε : Type)
  | server (server : σ)
  | floodControl
  | controlPlane (err : ε)
deriving DecidableEq

/-- The limiter is shared by the providers, so a join link stands for the link and its provider. An entry of the cache
is a server with its `expires` and its `refreshAfter`. Times are in ms. -/
structure Credentials (κ σ : Type) where
  now : ℕ
  cache : κ → Option (σ × ℕ × ℕ)
  authFailures : κ → List ℕ
  floodUntil : ℕ
  lastFetch : ℕ
  fetchGate : Bool

/-- `.error i` is the error of the context of caller `i`, also where `FetchTURNCredentials` wraps it. -/
abbrev Result (σ ε : Type) := Except ℕ (Outcome σ ε)

/-- `ended` is a flight whose function has returned, `landed` one whose result was handed over. -/
inductive Phase (σ ε : Type)
  | begun
  | atGate
  | holding
  | missed
  | spacing
  | timing
  | asking
  | storing (server : σ)
  | ended (result : Result σ ε)
  | landed

structure Flight (κ σ ε : Type) where
  joinLink : κ
  caller : ℕ
  phase : Phase σ ε

/-- `returned` has whether the context of the caller itself was done. -/
inductive Stage (σ ε : Type)
  | fetching
  | missed
  | admitted
  | waiting (flight : ℕ)
  | delivered (result : Result σ ε)
  | returned (result : Result σ ε) (done : Bool)
deriving DecidableEq

structure Caller (κ σ ε : Type) where
  joinLink : κ
  done : Bool
  stage : Stage σ ε

structure Provider (κ σ ε : Type) extends Credentials κ σ where
  group : κ → Option ℕ
  forgets : List κ
  callers : List (Caller κ σ ε)
  flights : List (Flight κ σ ε)

inductive Act (κ σ ε : Type)
  | tick (elapsed : ℕ)
  | fetch (joinLink : κ)
  | cancel (caller : ℕ)
  | call (caller : ℕ)
  | fly (flight : ℕ) (answer : Except (Option ε) σ)
  | abandon (flight : ℕ)
  | land (flight : ℕ)
  | giveUp (caller : ℕ)
  | invalidate (joinLink : κ)
  | forget (joinLink : κ)

section Fetch

variable (s : Credentials κ σ)

def cached (joinLink : κ) : Option σ :=
  (s.cache joinLink).bind fun (server, expires, _) => if expires < s.now then none else some server

def floodControlError : Bool := s.now < s.floodUntil

variable [DecidableEq κ]

def fly (spacing : κ → ℕ) (f : Flight κ σ ε) (answer : Except (Option ε) σ) :
    Option (Credentials κ σ × Phase σ ε) :=
  match f.phase with
  | .begun =>
    match cached s f.joinLink with
    | some server => some (s, .ended (.ok (.server server)))
    | none => some (s, .atGate)
  | .atGate => if s.fetchGate then some ({ s with fetchGate := false }, .holding) else none
  | .holding =>
    match cached s f.joinLink with
    | some server => some ({ s with fetchGate := true }, .ended (.ok (.server server)))
    | none => some (s, .missed)
  | .missed =>
    if floodControlError s then some ({ s with fetchGate := true }, .ended (.ok .floodControl)) else some (s, .spacing)
  | .spacing =>
    if s.now < s.lastFetch + spacing f.joinLink then some (s, .timing)
    else some ({ s with lastFetch := s.now }, .asking)
  | .timing =>
    if s.now < s.lastFetch + spacing f.joinLink then none else some ({ s with lastFetch := s.now }, .asking)
  | .asking =>
    match answer with
    | .ok server => some (s, .storing server)
    | .error none =>
      some ({ s with floodUntil := max s.floodUntil (s.now + 120000), fetchGate := true }, .ended (.ok .floodControl))
    | .error (some err) => some ({ s with fetchGate := true }, .ended (.ok (.controlPlane err)))
  | .storing server =>
    let cache := update s.cache f.joinLink (some (server, s.now + 540000, s.now + 15000))
    some ({ s with cache, fetchGate := true }, .ended (.ok (.server server)))
  | .ended _ | .landed => none

def invalidate (joinLink : κ) : Credentials κ σ × List κ :=
  let failures := (s.authFailures joinLink).filter (fun observed => s.now - observed ≤ 10000) ++ [s.now]
  if failures.length < 3 then ({ s with authFailures := update s.authFailures joinLink failures }, [])
  else
    let s := { s with authFailures := update s.authFailures joinLink [] }
    if (s.cache joinLink).any fun (_, _, refreshAfter) => s.now < refreshAfter then (s, [])
    else ({ s with cache := update s.cache joinLink none }, [joinLink])

end Fetch

def Caller.deliver (i : ℕ) (result : Result σ ε) (c : Caller κ σ ε) : Caller κ σ ε :=
  match c.stage with
  | .waiting flight => if flight = i then { c with stage := .delivered result } else c
  | _ => c

namespace Provider

variable [DecidableEq κ] (p : Provider κ σ ε)

def new (now : ℕ) : Provider κ σ ε := ⟨⟨now, fun _ => none, fun _ => [], 0, 0, true⟩, fun _ => none, [], [], []⟩

def turn (i : ℕ) (c : Caller κ σ ε) (stage : Stage σ ε) : Provider κ σ ε :=
  { p with callers := p.callers.set i { c with stage } }

def call (i : ℕ) (c : Caller κ σ ε) : Option (Provider κ σ ε) :=
  match c.stage with
  | .fetching =>
    match cached p.toCredentials c.joinLink with
    | some server => some (p.turn i c (.returned (.ok (.server server)) c.done))
    | none => some (p.turn i c .missed)
  | .missed =>
    if floodControlError p.toCredentials then some (p.turn i c (.returned (.ok .floodControl) c.done))
    else some (p.turn i c .admitted)
  | .admitted =>
    match p.group c.joinLink with
    | some flight => some (p.turn i c (.waiting flight))
    | none =>
      some { p.turn i c (.waiting p.flights.length) with
        flights := p.flights ++ [⟨c.joinLink, i, .begun⟩]
        group := update p.group c.joinLink (some p.flights.length) }
  | .delivered result => some (p.turn i c (.returned result c.done))
  | _ => none

def setPhase (i : ℕ) (f : Flight κ σ ε) (phase : Phase σ ε) : Provider κ σ ε :=
  { p with flights := p.flights.set i { f with phase } }

def land (i : ℕ) (f : Flight κ σ ε) (result : Result σ ε) : Provider κ σ ε :=
  { p.setPhase i f .landed with
    group := if p.group f.joinLink = some i then update p.group f.joinLink none else p.group
    callers := p.callers.map (Caller.deliver i result) }

def step (spacing : κ → ℕ) : Act κ σ ε → Option (Provider κ σ ε)
  | .tick elapsed => some { p with now := p.now + elapsed }
  | .fetch joinLink => some { p with callers := p.callers ++ [⟨joinLink, false, .fetching⟩] }
  | .cancel i => p.callers[i]?.map fun c => { p with callers := p.callers.set i { c with done := true } }
  | .call i => p.callers[i]?.bind (p.call i)
  | .fly i answer => p.flights[i]?.bind fun f => (fly p.toCredentials spacing f answer).map fun (s, phase) =>
    { p with toCredentials := s }.setPhase i f phase
  | .abandon i => p.flights[i]?.bind fun f =>
    if p.callers[f.caller]?.any (·.done) then
      match f.phase with
      | .atGate => some (p.setPhase i f (.ended (.error f.caller)))
      | .timing | .asking => some ({ p with fetchGate := true }.setPhase i f (.ended (.error f.caller)))
      | _ => none
    else none
  | .land i => p.flights[i]?.bind fun f =>
    match f.phase with
    | .ended result => some (p.land i f result)
    | _ => none
  | .giveUp i => p.callers[i]?.bind fun c => match c.stage, c.done with
    | .waiting _, true | .delivered _, true => some (p.turn i c (.returned (.error i) true))
    | _, _ => none
  | .invalidate joinLink =>
    let (s, forgets) := invalidate p.toCredentials joinLink
    some { p with toCredentials := s, forgets := p.forgets ++ forgets }
  | .forget joinLink =>
    if joinLink ∈ p.forgets then
      some { p with forgets := p.forgets.erase joinLink, group := update p.group joinLink none }
    else none

def deserted : Act κ σ ε → Bool
  | .land i =>
    match p.flights[i]?.map Flight.phase with
    | some (.ended (.error _)) => p.callers.all fun c => match c.stage with
      | .waiting flight => c.done || flight ≠ i
      | _ => true
    | _ => true
  | _ => true

end Provider

def Caller.Isolated (c : Caller κ σ ε) : Prop :=
  match c.stage with
  | .delivered (.error _) => c.done = true
  | .returned (.error _) done => done = true
  | _ => True

section

variable {i : ℕ} {c : Caller κ σ ε}

theorem isolated_deliver {callers : List (Caller κ σ ε)} {result : Result σ ε}
    (h : ∀ c ∈ callers, c.Isolated)
    (hdone : ∀ j, result = .error j → ∀ c ∈ callers, c.stage = .waiting i → c.done = true) :
    ∀ c ∈ callers.map (Caller.deliver i result), c.Isolated := by
  refine forall_mem_map.mpr fun c hc => ?_
  unfold Caller.deliver
  split
  · next flight hstage =>
    split_ifs with hflight
    · cases result with
      | error j => exact hdone j rfl c hc (hflight ▸ hstage)
      | ok outcome => trivial
    · exact h c hc
  · exact h c hc

variable [DecidableEq κ] {p p' : Provider κ σ ε} {spacing : κ → ℕ}

theorem isolated_call (h : ∀ c ∈ p.callers, c.Isolated) (hc : p.callers[i]? = some c) (hp : p.call i c = some p') :
    ∀ c ∈ p'.callers, c.Isolated := by
  unfold Provider.call at hp
  split at hp
  case h_4 result hstage =>
    cases hp
    apply forall_mem_set h
    have hcaller := h c (mem_of_getElem? hc)
    unfold Caller.Isolated at hcaller ⊢
    rw [hstage] at hcaller
    cases result with
    | error j => exact hcaller
    | ok outcome => trivial
  case h_5 => cases hp
  all_goals
    split at hp
    all_goals
      cases hp
      exact forall_mem_set h trivial

theorem isolated_step {a : Act κ σ ε} (h : ∀ c ∈ p.callers, c.Isolated) (hmet : p.deserted a = true)
    (hp : p.step spacing a = some p') : ∀ c ∈ p'.callers, c.Isolated := by
  cases a with
  | tick elapsed | invalidate joinLink =>
    cases hp
    exact h
  | fetch joinLink =>
    cases hp
    exact forall_mem_concat h trivial
  | cancel i =>
    obtain ⟨c, hc, rfl⟩ := map_eq_some_iff.mp hp
    apply forall_mem_set h
    have hcaller := h c (mem_of_getElem? hc)
    unfold Caller.Isolated at hcaller ⊢
    split
    · rfl
    · next hstage => rwa [hstage] at hcaller
    · trivial
  | call i =>
    obtain ⟨c, hc, hp⟩ := bind_eq_some_iff.mp hp
    exact isolated_call h hc hp
  | fly i answer =>
    obtain ⟨f, -, ⟨s, phase⟩, -, rfl⟩ := bind_map_eq_some hp
    exact h
  | abandon i =>
    obtain ⟨f, -, hp⟩ := bind_eq_some_iff.mp hp
    obtain ⟨-, hp⟩ := ite_none_right_eq_some.mp hp
    split at hp <;> cases hp <;> exact h
  | land i =>
    obtain ⟨f, hf, hp⟩ := bind_eq_some_iff.mp hp
    split at hp <;> cases hp
    next result hphase =>
      refine isolated_deliver h fun j hresult c hc hstage => ?_
      simp only [Provider.deserted, hf, map_some, hphase, hresult] at hmet
      simpa [hstage] using List.all_eq_true.mp hmet c hc
  | giveUp i =>
    obtain ⟨c, -, hp⟩ := bind_eq_some_iff.mp hp
    split at hp
    case h_3 => cases hp
    all_goals
      cases hp
      exact forall_mem_set h rfl
  | forget joinLink =>
    obtain ⟨-, hp⟩ := ite_none_right_eq_some.mp hp
    cases hp
    exact h

theorem fetch_isolated {now : ℕ} {acts : List (Act κ σ ε)}
    (h : Run (Provider.step · spacing) (Provider.deserted · ·) (.new now) acts p) (hc : c ∈ p.callers)
    {result : Result σ ε} (hreturned : c.stage = .returned result false) :
    ∃ outcome, result = .ok outcome := by
  have hcaller := h.invariant isolated_step nofun c hc
  cases result with
  | ok outcome => exact ⟨outcome, rfl⟩
  | error j =>
    rw [Caller.Isolated, hreturned] at hcaller
    cases hcaller

end

def joined : List (Act ℕ ℕ ℕ) :=
  [.fetch 7, .call 0, .call 0, .call 0, .fetch 7, .call 1, .call 1, .call 1, .fly 0 (.ok 5)]

theorem joined_flight_serves : ∃ p : Provider ℕ ℕ ℕ,
    Run (Provider.step · fun _ => 3000) (Provider.deserted · ·) (.new 9000)
      (joined ++ replicate 6 (.fly 0 (.ok 5)) ++ [.land 0, .call 1]) p ∧
    ∃ c ∈ p.callers, ∃ result, c.stage = .returned result false ∧ ∃ outcome, result = .ok outcome := by
  refine (Run.exists_of_decideWhile
    (P := fun p : Provider ℕ ℕ ℕ => ∃ c ∈ p.callers, c.stage = .returned (.ok (.server 5)) false) ?_).imp
    fun p ⟨hrun, c, hc, hstage⟩ => ⟨hrun, c, hc, _, hstage, fetch_isolated hrun hc hstage⟩
  decide +kernel

theorem joined_flight_cancelled : ∃ p : Provider ℕ ℕ ℕ,
    Run (Provider.step · fun _ => 3000) anyStep (.new 9000) (joined ++ [.cancel 0, .abandon 0, .land 0, .call 1]) p ∧
    p.callers[1]?.map (·.stage) = some (.returned (.error 0) false) := by
  apply Run.exists_of_decide
  decide +kernel

end Hydracore.Call.Turn
