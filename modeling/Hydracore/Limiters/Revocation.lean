import Hydracore.Systems.Runs
import Hydracore.Systems.Tasks

/-!
The manager strategies of the connection, traffic and bandwidth limiters: setups of connections, their closes, and
`UpdateStrategies`. The three keep the same books under one mutex; they differ in what they do to an entry.
-/

namespace Hydracore.Limiters

open Systems List Option

inductive Kind where
  | connection
  | traffic
  | bandwidth

inductive Ended where
  | cancelled
  | closed

/-- What `UpdateStrategies` does to an entry it has taken: `entry.cancel()` or `entry.conn.Close()`. -/
def Kind.revoke : Kind → Ended
  | .connection => .cancelled
  | .traffic | .bandwidth => .closed

variable {κ : Type}

/-- Where a connection is. `request`, `wrapConn` and `wrapPacketConn` look up a strategy under the mutex, run it
without, and register the connection under the mutex again. -/
inductive Phase (κ : Type) where
  | entered
  | chosen (strategy : κ)
  | refused (err : String)
  | ready
  | closing
  | closed

/-- `overlapped` says that an `UpdateStrategies` without the user has been running during the setup. -/
structure Connection (κ : Type) where
  user : String
  phase : Phase κ
  ended : Option Ended
  overlapped : Bool

/-- A call of `UpdateStrategies` past its critical section: the entries it has yet to end, and how many setups had
begun when it returned. -/
structure Update (κ : Type) where
  strategies : String → Option κ
  pending : List ℕ
  returned : Option ℕ

/-- `entries` are the map `cancels` or `conns`, as pairs of a user and a connection. -/
structure Strategy (κ : Type) where
  strategies : String → Option κ
  entries : List (String × ℕ)
  connections : List (Connection κ)
  updates : List (Update κ)

namespace Connection

def finished (c : Connection κ) : Bool :=
  match c.phase with
  | .entered | .chosen _ => false
  | .refused _ | .ready | .closing | .closed => true

def gone (c : Connection κ) : Bool :=
  c.ended.isSome || match c.phase with
    | .refused _ | .closing | .closed => true
    | .entered | .chosen _ | .ready => false

def overlap (strategies : String → Option κ) (c : Connection κ) : Connection κ :=
  { c with overlapped := c.overlapped || (strategies c.user).isNone }

end Connection

def Update.running (update : Update κ) (user : String) : Bool :=
  update.returned.isNone && (update.strategies user).isNone

inductive Step (κ : Type) where
  | enter (user : String)
  | lookup (i : ℕ)
  | refuse (i : ℕ) (err : String)
  | register (i : ℕ)
  | close (i : ℕ)
  | closed (i : ℕ)
  | updateStrategies (strategies : String → Option κ)
  | revoke (k : ℕ)
  | finish (k : ℕ)

namespace Strategy

def start : Strategy κ := ⟨fun _ => none, [], [], []⟩

def move (s : Strategy κ) (i : ℕ) (f : Connection κ → Option (Phase κ)) : Option (Strategy κ) :=
  s.connections[i]?.bind fun c => (f c).map fun phase =>
    { s with connections := s.connections.set i { c with phase := phase } }

def step (kind : Kind) (s : Strategy κ) : Step κ → Option (Strategy κ)
  | .enter user =>
    some { s with connections := s.connections ++ [⟨user, .entered, none, s.updates.any (·.running user)⟩] }
  | .lookup i => s.move i fun c =>
    match c.phase with
    | .entered =>
      match s.strategies c.user with
      | none => some (.refused ("user strategy not found: " ++ c.user))
      | some strategy => some (.chosen strategy)
    | _ => none
  | .refuse i err => s.move i fun c =>
    match c.phase with
    | .chosen _ => some (.refused err)
    | _ => none
  | .register i => s.connections[i]?.bind fun c =>
    match c.phase with
    | .chosen _ =>
      some { s with
        entries := s.entries ++ [(c.user, i)]
        connections := s.connections.set i { c with phase := .ready } }
    | _ => none
  | .close i => s.connections[i]?.bind fun c =>
    match c.phase with
    | .ready =>
      some { s with
        entries := s.entries.erase (c.user, i)
        connections := s.connections.set i { c with phase := .closing } }
    | _ => none
  | .closed i => s.move i fun c =>
    match c.phase with
    | .closing => some .closed
    | _ => none
  | .updateStrategies strategies =>
    some {
      strategies := strategies
      entries := s.entries.filter fun entry => (strategies entry.1).isSome
      connections := s.connections.map fun c => if c.finished then c else c.overlap strategies
      updates := s.updates ++
        [⟨strategies, (s.entries.filter fun entry => (strategies entry.1).isNone).map Prod.snd, none⟩] }
  | .revoke k => s.updates[k]?.bind fun update =>
    match update.pending with
    | [] => none
    | i :: pending =>
      some { s with
        connections := s.connections.modify i fun c => { c with ended := some kind.revoke }
        updates := s.updates.set k { update with pending := pending } }
  | .finish k => s.updates[k]?.bind fun update =>
    if update.returned.isSome || !update.pending.isEmpty then none
    else some { s with updates := s.updates.set k { update with returned := some s.connections.length } }

open Connection

def timely (s : Strategy κ) : Step κ → Bool
  | .register i => s.connections[i]?.all fun c => !c.overlapped
  | .finish k => s.updates[k]?.all fun update => s.updates.all fun other => other.pending.all fun i =>
    s.connections[i]?.all fun c => (update.strategies c.user).isSome
  | _ => true

def Before (s : Strategy κ) (user : String) (i : ℕ) : Prop :=
  ∀ update ∈ s.updates, update.strategies user = none → ∃ n, update.returned = some n ∧ n ≤ i

structure Revoking (s : Strategy κ) : Prop where
  owned : ∀ user i, (user, i) ∈ s.entries → ∃ c, s.connections[i]? = some c ∧ c.user = user
  held : ∀ i c, s.connections[i]? = some c → c.phase = .ready → c.ended = none →
    (c.user, i) ∈ s.entries ∨ ∃ update ∈ s.updates, i ∈ update.pending
  entry : ∀ user i, (user, i) ∈ s.entries → s.Before user i
  setup : ∀ i c, s.connections[i]? = some c → c.finished = false → c.overlapped = false → s.Before c.user i
  taken : ∀ update ∈ s.updates, ∀ i ∈ update.pending, ∀ c, s.connections[i]? = some c →
    ∀ other ∈ s.updates, other.strategies c.user = none → ∀ n, other.returned = some n → n ≤ i
  count : ∀ update ∈ s.updates, ∀ n, update.returned = some n → n ≤ s.connections.length

theorem Revoking.start : Revoking (start : Strategy κ) where
  owned := by rintro user i ⟨⟩
  held := by simp [Strategy.start]
  entry := by rintro user i ⟨⟩
  setup := by simp [Strategy.start]
  taken := by rintro update ⟨⟩
  count := by rintro update ⟨⟩

section

variable {s t : Strategy κ} {i : ℕ} {c : Connection κ}

theorem exists_set (h : s.connections[i]? = some c) (c' : Connection κ) (huser : c'.user = c.user) {j : ℕ}
    {user : String} (hj : ∃ d, s.connections[j]? = some d ∧ d.user = user) :
    ∃ d, (s.connections.set i c')[j]? = some d ∧ d.user = user := by
  obtain ⟨d, hd, rfl⟩ := hj
  by_cases heq : i = j
  · subst heq
    cases h.symm.trans hd
    have hlt := getElem?_lt h
    exact ⟨c', by simp [hlt], huser⟩
  · exact ⟨d, by simpa [heq] using hd, rfl⟩

theorem user_of_set (h : s.connections[i]? = some c) (c' : Connection κ) (huser : c'.user = c.user) {j : ℕ}
    {d : Connection κ} (hd : (s.connections.set i c')[j]? = some d) :
    ∃ d₀, s.connections[j]? = some d₀ ∧ d₀.user = d.user := by
  rcases getElem?_set_cases hd with ⟨rfl, rfl⟩ | ⟨_, hd⟩
  · exact ⟨c, h, huser.symm⟩
  · exact ⟨d, hd, rfl⟩

theorem Revoking.set (h : Revoking s) (hc : s.connections[i]? = some c) {c' : Connection κ}
    {entries : List (String × ℕ)} (huser : c'.user = c.user)
    (hentries : ∀ user j, (user, j) ∈ entries → (user, j) ∈ s.entries ∨ user = c.user ∧ j = i ∧ s.Before user j)
    (hkept : ∀ user j, j ≠ i → (user, j) ∈ s.entries → (user, j) ∈ entries)
    (hready : c'.phase = .ready → (c.user, i) ∈ entries)
    (hopen : c'.finished = false → c.finished = false ∧ c'.overlapped = c.overlapped) :
    Revoking { s with connections := s.connections.set i c', entries := entries } := by
  constructor
  · intro user j hj
    rcases hentries user j hj with hj | ⟨rfl, rfl, -⟩
    · exact exists_set hc c' huser (h.owned user j hj)
    · exact exists_set hc c' huser ⟨c, hc, rfl⟩
  · intro j d hd hdready hended
    rcases getElem?_set_cases hd with ⟨rfl, rfl⟩ | ⟨hne, hd⟩
    · exact .inl (huser ▸ hready hdready)
    · exact (h.held j d hd hdready hended).imp_left (hkept d.user j hne)
  · intro user j hj
    rcases hentries user j hj with hj | ⟨-, -, hbefore⟩
    · exact h.entry user j hj
    · exact hbefore
  · intro j d hd hdopen hoverlapped
    rcases getElem?_set_cases hd with ⟨rfl, rfl⟩ | ⟨_, hd⟩
    · obtain ⟨hfinished, hsame⟩ := hopen hdopen
      exact huser ▸ h.setup _ c hc hfinished (hsame ▸ hoverlapped)
    · exact h.setup j d hd hdopen hoverlapped
  · intro update hupdate j hj d hd other hother hnone
    obtain ⟨d₀, hd₀, hsame⟩ := user_of_set hc c' huser hd
    exact h.taken update hupdate j hj d₀ hd₀ other hother (hsame ▸ hnone)
  · simpa using h.count

theorem Revoking.move (h : Revoking s) {f : Connection κ → Option (Phase κ)} (hmove : s.move i f = some t)
    (hf : ∀ c phase, f c = some phase → phase ≠ .ready ∧
      ({ c with phase := phase }.finished = false → c.finished = false)) : Revoking t := by
  obtain ⟨c, hc, phase, hphase, rfl⟩ := bind_map_eq_some hmove
  obtain ⟨hready, hopen⟩ := hf c phase hphase
  exact h.set hc rfl (fun _ _ => .inl) (fun _ _ _ => id) (absurd · hready) fun hfalse => ⟨hopen hfalse, rfl⟩

theorem Revoking.enter (h : Revoking s) (user : String) : Revoking { s with
      connections := s.connections ++ [⟨user, .entered, none, s.updates.any (·.running user)⟩] } := by
  constructor
  · intro user j hj
    obtain ⟨d, hd, huser⟩ := h.owned user j hj
    exact ⟨d, getElem?_append_of_some hd, huser⟩
  · intro j d hd hready hended
    rcases getElem?_concat_cases hd with hd | ⟨_, rfl⟩
    · exact h.held j d hd hready hended
    · cases hready
  · exact h.entry
  · intro j d hd hopen hoverlapped
    rcases getElem?_concat_cases hd with hd | ⟨rfl, rfl⟩
    · exact h.setup j d hd hopen hoverlapped
    · -- no update without the user is running, and those that have returned did so before
      intro update hupdate hnone
      have hreturned : update.returned ≠ none := by
        intro hrunning
        have := List.any_eq_false.mp hoverlapped update hupdate
        simp [Update.running, hrunning, hnone] at this
      obtain ⟨n, hn⟩ := ne_none_iff_exists'.mp hreturned
      exact ⟨n, hn, h.count update hupdate n hn⟩
  · intro update hupdate j hj d hd other hother hnone n hn
    rcases getElem?_concat_cases hd with hd | ⟨rfl, rfl⟩
    · exact h.taken update hupdate j hj d hd other hother hnone n hn
    · exact h.count other hother n hn
  · intro update hupdate n hn
    have := h.count update hupdate n hn
    simp only [length_append, length_singleton]
    omega

variable {kind : Kind}

section

variable (h : Revoking s)
include h

theorem Revoking.register (hmet : s.timely (.register i) = true)
    (hstep : s.step kind (.register i) = some t) : Revoking t := by
  obtain ⟨c, hc, hstep⟩ := bind_eq_some_iff.mp hstep
  have hspared : c.overlapped = false := by simpa [timely, hc] using hmet
  cases hphase : c.phase with
  | entered | refused err | ready | closing | closed => simp [hphase] at hstep
  | chosen strategy =>
    obtain rfl : _ = t := by simpa only [hphase, some.injEq] using hstep
    have hbefore : s.Before c.user i := h.setup i c hc (by simp [finished, hphase]) hspared
    refine h.set hc rfl (fun user j hj => ?_) (fun _ _ _ => mem_append_left _) (fun _ => by simp) nofun
    rcases mem_append.mp hj with hj | hj
    · exact .inl hj
    · obtain ⟨rfl, rfl⟩ : user = c.user ∧ j = i := by simpa using hj
      exact .inr ⟨rfl, rfl, hbefore⟩

theorem Revoking.close (hstep : s.step kind (.close i) = some t) : Revoking t := by
  obtain ⟨c, hc, hstep⟩ := bind_eq_some_iff.mp hstep
  cases hphase : c.phase with
  | entered | refused err | chosen strategy | closing | closed => simp [hphase] at hstep
  | ready =>
    obtain rfl : _ = t := by simpa only [hphase, some.injEq] using hstep
    refine h.set hc rfl (fun _ _ hj => .inl (mem_of_mem_erase hj)) (fun user j hne hmem => ?_) nofun nofun
    exact (mem_erase_of_ne (by simp [hne])).mpr hmem

theorem Revoking.updateStrategies (strategies : String → Option κ)
    (hstep : s.step kind (.updateStrategies strategies) = some t) : Revoking t := by
  cases hstep
  have hmap {j : ℕ} {d : Connection κ}
      (hd : (s.connections.map fun c => if c.finished then c else c.overlap strategies)[j]? = some d) :
      ∃ d₀, s.connections[j]? = some d₀ ∧ d = if d₀.finished then d₀ else d₀.overlap strategies := by
    rw [getElem?_map] at hd
    obtain ⟨d₀, hd₀, rfl⟩ := map_eq_some_iff.mp hd
    exact ⟨d₀, hd₀, rfl⟩
  have huser (d₀ : Connection κ) : (if d₀.finished then d₀ else d₀.overlap strategies).user = d₀.user := by
    split_ifs <;> rfl
  constructor
  · intro user j hj
    obtain ⟨d, hd, rfl⟩ := h.owned user j (mem_filter.mp hj).1
    exact ⟨if d.finished then d else d.overlap strategies, by simp [hd], huser d⟩
  · intro j d hd hready hended
    obtain ⟨d₀, hd₀, rfl⟩ := hmap hd
    have hfinished : d₀.finished = true := by
      by_contra hopen
      rw [if_neg hopen] at hready
      exact hopen (by simp [finished, show d₀.phase = .ready from hready])
    simp only [hfinished, if_true] at hready hended ⊢
    rcases h.held j d₀ hd₀ hready hended with hmem | ⟨update, hupdate, hpending⟩
    · cases hstrategy : strategies d₀.user with
      | some strategy => exact .inl (mem_filter.mpr ⟨hmem, by simp [hstrategy]⟩)
      | none =>
        refine .inr ⟨_, mem_append_right _ (mem_singleton.mpr rfl), ?_⟩
        exact List.mem_map.mpr ⟨(d₀.user, j), mem_filter.mpr ⟨hmem, by simp [hstrategy]⟩, rfl⟩
    · exact .inr ⟨update, mem_append_left _ hupdate, hpending⟩
  · intro user j hj update hupdate hnone
    obtain ⟨hmem, hsome⟩ := mem_filter.mp hj
    rcases mem_concat_cases hupdate with hupdate | rfl
    · exact h.entry user j hmem update hupdate hnone
    · simp [show strategies user = none from hnone] at hsome
  · intro j d hd hopen hoverlapped update hupdate hnone
    obtain ⟨d₀, hd₀, rfl⟩ := hmap hd
    have hfinished : d₀.finished = false := by
      cases hfinished : d₀.finished with
      | false => rfl
      | true => simp [hfinished] at hopen
    simp only [hfinished, Bool.false_eq_true, if_false, overlap, Bool.or_eq_false_iff] at hoverlapped hnone
    rcases mem_concat_cases hupdate with hupdate | rfl
    · exact h.setup j d₀ hd₀ hfinished hoverlapped.1 update hupdate hnone
    · simp [show strategies d₀.user = none from hnone] at hoverlapped
  · intro update hupdate j hj d hd other hother hnone n hn
    obtain ⟨d₀, hd₀, rfl⟩ := hmap hd
    rw [huser] at hnone
    rcases mem_concat_cases hother with hother | rfl
    · rcases mem_concat_cases hupdate with hupdate | rfl
      · exact h.taken update hupdate j hj d₀ hd₀ other hother hnone n hn
      · obtain ⟨⟨user, _⟩, hmem, rfl⟩ := List.mem_map.mp hj
        have hmem := (mem_filter.mp hmem).1
        obtain ⟨d₁, hd₁, rfl⟩ := h.owned user _ hmem
        cases hd₁.symm.trans hd₀
        obtain ⟨m, hm, hle⟩ := h.entry _ _ hmem other hother hnone
        cases hm.symm.trans hn
        exact hle
    · cases hn
  · intro update hupdate n hn
    rcases mem_concat_cases hupdate with hupdate | rfl
    · simpa using h.count update hupdate n hn
    · cases hn

theorem Revoking.revoke {k : ℕ} (hstep : s.step kind (.revoke k) = some t) : Revoking t := by
  obtain ⟨update, hupdate, hstep⟩ := bind_eq_some_iff.mp hstep
  cases hpending : update.pending with
  | nil => simp [hpending] at hstep
  | cons i pending =>
    obtain rfl : _ = t := by simpa only [hpending, some.injEq] using hstep
    have hmodify {j : ℕ} {d : Connection κ}
        (hd : (s.connections.modify i fun c => { c with ended := some kind.revoke })[j]? = some d) :
        ∃ d₀, s.connections[j]? = some d₀ ∧ d.user = d₀.user ∧ d.phase = d₀.phase ∧ d.overlapped = d₀.overlapped ∧
          (d.ended = none → d₀.ended = none ∧ j ≠ i) := by
      rw [getElem?_modify] at hd
      obtain ⟨d₀, hd₀, rfl⟩ := map_eq_some_iff.mp hd
      refine ⟨d₀, hd₀, ?_⟩
      by_cases heq : i = j
      · simp [heq]
      · simp [heq, Ne.symm heq]
    -- the update is the one before, with an entry less
    have hold {other : Update κ} (hother : other ∈ s.updates.set k { update with pending := pending }) :
        ∃ other₀ ∈ s.updates, other.strategies = other₀.strategies ∧ other.returned = other₀.returned ∧
          ∀ j ∈ other.pending, j ∈ other₀.pending := by
      obtain hother | rfl := mem_or_eq_of_mem_set hother
      · exact ⟨other, hother, rfl, rfl, fun _ => id⟩
      · exact ⟨update, mem_of_getElem? hupdate, rfl, rfl, fun j hj => by simp [hpending, hj]⟩
    have hbefore {user : String} {j : ℕ} (hj : s.Before user j) :
        Before { s with updates := s.updates.set k { update with pending := pending } } user j := by
      intro other hother hnone
      obtain ⟨other₀, hother₀, hstrategies, hreturned, _⟩ := hold hother
      rw [hstrategies] at hnone
      rw [hreturned]
      exact hj other₀ hother₀ hnone
    constructor
    · intro user j hj
      obtain ⟨d, hd, rfl⟩ := h.owned user j hj
      refine ⟨if i = j then { d with ended := some kind.revoke } else d, ?_, by split_ifs <;> rfl⟩
      rw [getElem?_modify, hd]
      split_ifs <;> rfl
    · intro j d hd hready hended
      obtain ⟨d₀, hd₀, huser, hphase, _, hnone⟩ := hmodify hd
      obtain ⟨hended, hne⟩ := hnone hended
      rw [huser]
      refine (h.held j d₀ hd₀ (hphase ▸ hready) hended).imp_right ?_
      rintro ⟨other, hother, hj⟩
      obtain hmem | heq := mem_set_or hother k { update with pending := pending }
      · exact ⟨other, hmem, hj⟩
      · cases heq.symm.trans hupdate
        have hj : j ∈ pending := by simpa [hpending, hne] using hj
        have hlt := getElem?_lt hupdate
        exact ⟨_, mem_set hlt _, hj⟩
    · exact fun user j hj => hbefore (h.entry user j hj)
    · intro j d hd hopen hoverlapped
      obtain ⟨d₀, hd₀, huser, hphase, hsame, _⟩ := hmodify hd
      rw [huser]
      refine hbefore (h.setup j d₀ hd₀ ?_ (hsame ▸ hoverlapped))
      simpa [finished, hphase] using hopen
    · intro other hother j hj d hd third hthird hnone n hn
      obtain ⟨d₀, hd₀, huser, _⟩ := hmodify hd
      obtain ⟨other₀, hother₀, _, _, hsub⟩ := hold hother
      obtain ⟨third₀, hthird₀, hstrategies, hreturned, _⟩ := hold hthird
      rw [hstrategies, huser] at hnone
      exact h.taken other₀ hother₀ j (hsub j hj) d₀ hd₀ third₀ hthird₀ hnone n (hreturned ▸ hn)
    · intro other hother n hn
      obtain ⟨other₀, hother₀, _, hreturned, _⟩ := hold hother
      simpa using h.count other₀ hother₀ n (hreturned ▸ hn)

theorem Revoking.finish {k : ℕ} (hmet : s.timely (.finish k) = true)
    (hstep : s.step kind (.finish k) = some t) : Revoking t := by
  obtain ⟨update, hupdate, hstep⟩ := bind_eq_some_iff.mp hstep
  obtain ⟨hidle, ⟨⟩⟩ := ite_none_left_eq_some.mp hstep
  have hrunning : update.returned = none := by
    cases hreturned : update.returned <;> simp [hreturned] at hidle ⊢
  have hmem := mem_of_getElem? hupdate
  simp only [timely, hupdate, all_some, List.all_eq_true] at hmet
  have hbefore {user : String} {j : ℕ} (hj : s.Before user j) :
      Before { s with updates := s.updates.set k { update with returned := some s.connections.length } } user j := by
    intro other hother hnone
    obtain hother | rfl := mem_or_eq_of_mem_set hother
    · exact hj other hother hnone
    · obtain ⟨n, hn, _⟩ := hj update hmem hnone
      simp [hrunning] at hn
  have hpending {other : Update κ} {j : ℕ} (hj : j ∈ other.pending)
      (hother : other ∈ s.updates.set k { update with returned := some s.connections.length }) :
      ∃ other₀ ∈ s.updates, j ∈ other₀.pending := by
    obtain hother | rfl := mem_or_eq_of_mem_set hother
    · exact ⟨other, hother, hj⟩
    · exact ⟨update, hmem, hj⟩
  constructor
  · exact h.owned
  · intro j d hd hready hended
    refine (h.held j d hd hready hended).imp_right ?_
    rintro ⟨other, hother, hj⟩
    obtain hother | heq := mem_set_or hother k { update with returned := some s.connections.length }
    · exact ⟨other, hother, hj⟩
    · cases heq.symm.trans hupdate
      exact ⟨_, mem_set (getElem?_lt hupdate) _, hj⟩
  · exact fun user j hj => hbefore (h.entry user j hj)
  · exact fun j d hd hopen hoverlapped => hbefore (h.setup j d hd hopen hoverlapped)
  · intro other hother j hj d hd third hthird hnone n hn
    obtain ⟨other₀, hother₀, hj₀⟩ := hpending hj hother
    obtain hthird | rfl := mem_or_eq_of_mem_set hthird
    · exact h.taken other₀ hother₀ j hj₀ d hd third hthird hnone n hn
    · have := hmet other₀ hother₀ j hj₀
      simp [show s.connections[j]? = some d from hd, show update.strategies d.user = none from hnone] at this
  · intro other hother n hn
    obtain hother | rfl := mem_or_eq_of_mem_set hother
    · exact h.count other hother n hn
    · exact (some.inj hn).ge

theorem Revoking.step {a : Step κ} (hmet : s.timely a = true) (hstep : s.step kind a = some t) : Revoking t := by
  cases a with
  | enter user =>
    cases hstep
    exact h.enter user
  | lookup i =>
    apply h.move hstep
    intro c phase hphase
    cases hentered : c.phase <;> simp only [hentered] at hphase <;> try cases hphase
    cases hstrategy : s.strategies c.user <;> simp only [hstrategy, some.injEq] at hphase <;> subst hphase <;>
      simp [finished, hentered]
  | refuse i err =>
    apply h.move hstep
    intro c phase hphase
    cases hchosen : c.phase <;> simp only [hchosen] at hphase <;> cases hphase
    simp [finished]
  | register i => exact h.register hmet hstep
  | close i => exact h.close hstep
  | closed i =>
    apply h.move hstep
    intro c phase hphase
    cases hclosing : c.phase <;> simp only [hclosing] at hphase <;> cases hphase
    simp [finished]
  | updateStrategies strategies => exact h.updateStrategies strategies hstep
  | revoke k => exact h.revoke hstep
  | finish k => exact h.finish hmet hstep

end

end

theorem revocation_reaches (kind : Kind) {as : List (Step κ)} {s : Strategy κ}
    (hrun : Run (step kind) (timely · ·) start as s) {update : Update κ} (hupdate : update ∈ s.updates) {n : ℕ}
    (hreturned : update.returned = some n) {user : String} (hmissing : update.strategies user = none) {i : ℕ}
    (hi : i < n) {c : Connection κ} (hc : s.connections[i]? = some c) (huser : c.user = user)
    (hfinished : c.finished = true) : c.gone = true := by
  have h : Revoking s := hrun.invariant (fun ht => ht.step) .start
  subst huser
  by_contra hlive
  have hready : c.phase = .ready ∧ c.ended = none := by
    cases hphase : c.phase <;> simp_all [finished, gone]
  rcases h.held i c hc hready.1 hready.2 with hmem | ⟨other, hother, hpending⟩
  · obtain ⟨m, hm, hle⟩ := h.entry c.user i hmem update hupdate hmissing
    cases hm.symm.trans hreturned
    omega
  · have := h.taken other hother i hpending c hc update hupdate hmissing n hreturned
    omega

def onlyUser : String → Option Unit := fun user => if user = "user" then some () else none

def noUser : String → Option Unit := fun _ => none

def revokedSteps : List (Step Unit) :=
  [.updateStrategies onlyUser, .finish 0, .enter "user", .lookup 0, .register 0, .updateStrategies noUser, .revoke 1,
    .finish 1]

theorem revocation_reaches_ready : ∃ s c, Run (step .connection) (timely · ·) start revokedSteps s ∧
    s.connections[0]? = some c ∧ c.user = "user" ∧ c.finished = true ∧ c.gone = true := by
  have hrun : Run (step .connection) (timely · ·) start revokedSteps _ := Run.of_execWhile rfl
  exact ⟨_, _, hrun, rfl, rfl, rfl, revocation_reaches .connection hrun (List.mem_cons_of_mem _ List.mem_cons_self) rfl
    rfl Nat.zero_lt_one rfl rfl rfl⟩

def lateSteps : List (Step Unit) :=
  [.updateStrategies onlyUser, .finish 0, .enter "user", .lookup 0, .updateStrategies noUser, .finish 1, .register 0]

def Spared (kind : Kind) : Prop :=
  ∃ s update c, Run (step kind) anyStep start lateSteps s ∧ update ∈ s.updates ∧ update.returned = some 1 ∧
    update.strategies "user" = none ∧ s.connections[0]? = some c ∧ c.user = "user" ∧ c.finished = true ∧ c.gone = false

theorem late_registration_spared : Spared .connection ∧ Spared .traffic ∧ Spared .bandwidth := by
  have hspared (kind : Kind) : Spared kind :=
    ⟨_, _, _, Run.of_exec rfl, List.mem_cons_of_mem _ List.mem_cons_self, rfl, rfl, rfl, rfl, rfl, rfl⟩
  exact ⟨hspared _, hspared _, hspared _⟩

end Strategy

end Hydracore.Limiters
