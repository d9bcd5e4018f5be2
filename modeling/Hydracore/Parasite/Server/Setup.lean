import Hydracore.Parasite.Server.Limits

/-!
Which table entries a step can take out, and what it does to the attach
counters and to the `ready` channels.
-/

namespace Hydracore.Parasite.Server

open Formats Systems Table Session List

def Session.outcome (s : Session) : Bool × Option String := (s.ready, s.setupErr)

namespace Table

variable {o : Options} {t t' : Table}

section

variable (t : Table)

@[simp] theorem closeRelay_pendingAttaches (r q : ℕ) :
    ((t.closeRelay r).heap q).pendingAttaches = (t.heap q).pendingAttaches :=
  modify_field pendingAttaches _ (by intro; rfl) t r q

@[simp] theorem closeRelay_ready (r q : ℕ) : ((t.closeRelay r).heap q).ready = (t.heap q).ready :=
  modify_field ready _ (by intro; rfl) t r q

@[simp] theorem closeRelay_outcome (r q : ℕ) : ((t.closeRelay r).heap q).outcome = (t.heap q).outcome :=
  modify_field outcome _ (by intro; rfl) t r q

section

variable (r conn q : ℕ)

@[simp] theorem removePath_outcome : ((t.removePath r conn).heap q).outcome = (t.heap q).outcome :=
  modify_field outcome _ (by intro; rfl) t r q

@[simp] theorem attachPath_pendingAttaches :
    ((t.attachPath r conn).heap q).pendingAttaches = (t.heap q).pendingAttaches :=
  modify_field pendingAttaches _ (by intro; rfl) t r q

@[simp] theorem attachPath_ready : ((t.attachPath r conn).heap q).ready = (t.heap q).ready :=
  modify_field ready _ (by intro; rfl) t r q

@[simp] theorem removePath_pendingAttaches :
    ((t.removePath r conn).heap q).pendingAttaches = (t.heap q).pendingAttaches :=
  modify_field pendingAttaches _ (by intro; rfl) t r q

@[simp] theorem removePath_ready : ((t.removePath r conn).heap q).ready = (t.heap q).ready :=
  modify_field ready _ (by intro; rfl) t r q

end

@[simp] theorem releaseSessionAttach_ready (r q : ℕ) :
    ((t.releaseSessionAttach r).heap q).ready = (t.heap q).ready :=
  modify_field ready _ (by intro; rfl) t r q

theorem removePath_closed (r conn q : ℕ) : ((t.removePath r conn).heap q).relay.closed = (t.heap q).relay.closed :=
  modify_field (fun s => s.relay.closed) _ (by intro; rfl) t r q

theorem closeRelay_heap_ne {r q : ℕ} (hq : q ≠ r) : (t.closeRelay r).heap q = t.heap q :=
  Function.update_of_ne hq _ _

end

variable {req : AuthRequest} {r : ℕ} {order : List SessionID} {g : Option Generation} {evicted : List ℕ}
  {e : Entered} {id : SessionID}

theorem register_lookup (t : Table) (s : Session) :
    (t.register s).sessions.lookup ((t.register s).heap t.fresh).id = some t.fresh := by
  have hs : (t.register s).heap t.fresh = s := Function.update_self _ _ _
  rw [hs]
  exact AList.lookup_insert _

variable {now : ℤ}

section

variable (h : Accounted o t) (he : t.enterSession o now req order g = (t', evicted, e))
include h he

theorem enterSession_heap (hr : r < t.fresh) : t'.heap r = t.heap r := by
  rcases enterSession_cases h he with ⟨rfl, -⟩ | ⟨-, hev, -⟩ | ⟨t₁, k, -, hev, -, -, -, -, rfl, -⟩
  · rfl
  · rw [hev.heap]
  · have hne : r ≠ t₁.fresh := by
      rw [hev.fresh]
      exact Nat.ne_of_lt hr
    exact (Function.update_of_ne hne _ _).trans (congrFun hev.heap r)

theorem enterSession_new (hr : t.fresh ≤ r) (hr' : r < t'.fresh) :
    e = .created r ∧ ∃ k, t'.heap r = newSession now req k := by
  rcases enterSession_cases h he with ⟨rfl, -⟩ | ⟨-, hev, -⟩ | ⟨t₁, k, -, hev, -, -, -, -, rfl, hout⟩
  · omega
  · rw [hev.fresh] at hr'
    omega
  · have hf := hev.fresh
    obtain rfl : r = t₁.fresh := by
      simp only [register] at hr'
      omega
    exact ⟨by rw [hout, hf], k, by simp [register]⟩

theorem enterSession_lost (hl : t.sessions.lookup id = some r) :
    t'.sessions.lookup id = some r ∨ ((t.heap r).pendingAttaches = 0 ∧ (t.heap r).ready = true) := by
  rcases enterSession_cases h he with ⟨rfl, -⟩ | ⟨-, hev, -⟩ | ⟨t₁, k, hn, hev, -, -, -, -, rfl, -⟩
  · exact .inl hl
  · by_cases hgone : r ∈ evicted
    · exact .inr ⟨(hev.spare r hgone).1, (hev.spare r hgone).2.1⟩
    · exact .inl (hev.still id r hl hgone)
  · by_cases hgone : r ∈ evicted
    · exact .inr ⟨(hev.spare r hgone).1, (hev.spare r hgone).2.1⟩
    · have hne : id ≠ req.sessionID := by
        rintro rfl
        rw [hn] at hl
        cases hl
      exact .inl ((AList.lookup_insert_ne hne).trans (hev.still id r hl hgone))

theorem enterSession_evicted (hr : r ∈ evicted) : r < t'.fresh ∧ ∀ id, t'.sessions.lookup id ≠ some r := by
  rcases enterSession_cases h he with ⟨-, rfl, -⟩ | ⟨-, hev, -⟩ | ⟨t₁, k, -, hev, -, -, -, -, rfl, -⟩
  · simp at hr
  · have hlt := (h.keyed _ _ (hev.spare r hr).2.2).2
    exact ⟨hev.fresh ▸ hlt, fun id hl => (hev.kept id r hl).2 hr⟩
  · have hlt := (h.keyed _ _ (hev.spare r hr).2.2).2
    have hf := hev.fresh
    refine ⟨by simp only [register]; omega, fun id hl => ?_⟩
    rcases Dict.lookup_insert_some hl with ⟨-, hr'⟩ | ⟨-, hl⟩
    · omega
    · exact (hev.kept id r hl).2 hr

end

theorem unregister_lost {user : Bytes}
    (hr : t.sessions.lookup id = some r) {id' : SessionID} {r' : ℕ} (hl : t.sessions.lookup id' = some r') :
    (t.unregister id user).sessions.lookup id' = some r' ∨ r' = r := by
  by_cases hid : id' = id
  · subst id'
    exact .inr (Option.some.inj (hl.symm.trans hr))
  · exact .inl ((AList.lookup_erase_ne hid).trans hl)

theorem unregister_gone (h : Accounted o t) {user : Bytes}
    (hr : t.sessions.lookup id = some r) (id' : SessionID) : (t.unregister id user).sessions.lookup id' ≠ some r := by
  intro hl
  obtain ⟨hne, hl⟩ := Dict.lookup_erase_some hl
  exact hne ((h.keyed _ _ hl).1.symm.trans (h.keyed _ _ hr).1)

section

variable (t : Table)

section

variable (req : AuthRequest)

theorem finishSetup_heap_ne {r q : ℕ} (err : Option String) (hq : q ≠ r) :
    (t.finishSetup req r err).heap q = t.heap q := by
  unfold finishSetup
  simp only
  split_ifs <;> simp [modify, unregister, hq]

section

variable (r : ℕ) (err : Option String)

theorem finishSetup_fresh : (t.finishSetup req r err).fresh = t.fresh := by
  unfold finishSetup
  simp only
  split_ifs <;> rfl

theorem finishSetup_outcome : ((t.finishSetup req r err).heap r).outcome = (true, err) := by
  unfold finishSetup
  simp only
  split_ifs <;> simp [modify, unregister, outcome]

theorem finishSetup_ready : ((t.finishSetup req r err).heap r).ready = true :=
  (Prod.mk.inj (finishSetup_outcome t req r err)).1

end

theorem finishSetup_relay (r q : ℕ) (err : Option String) :
    ((t.finishSetup req r err).heap q).relay = (t.heap q).relay := by
  by_cases hq : q = r
  · subst q
    unfold finishSetup
    simp only
    split_ifs <;> simp [modify, unregister]
  · rw [finishSetup_heap_ne t req err hq]

theorem finishSetup_pending (r : ℕ) (err : Option String) (hl : t.sessions.lookup req.sessionID = some r) :
    ((t.finishSetup req r err).heap r).pendingAttaches =
      (t.heap r).pendingAttaches + if err.isSome then 0 else 1 := by
  unfold finishSetup
  simp only [modify, hl, and_true]
  cases err <;> simp [unregister]

theorem finishSetup_lookup {q : ℕ} (err : Option String) (hl : t.sessions.lookup id = some q) :
    (t.finishSetup req r err).sessions.lookup id = some q ∨ (q = r ∧ err.isSome) := by
  unfold finishSetup
  simp only
  split_ifs with hgone hkept
  · by_cases hid : id = req.sessionID
    · subst id
      exact .inr ⟨Option.some.inj (hl.symm.trans hgone.2), hgone.1⟩
    · exact .inl ((AList.lookup_erase_ne hid).trans hl)
  · exact .inl hl
  · exact .inl hl

end

end

theorem finishSetup_failed (h : Accounted o t) (req : AuthRequest) (err : String)
    (hid : (t.heap r).id = req.sessionID) (id : SessionID) :
    (t.finishSetup req r (some err)).sessions.lookup id ≠ some r := by
  intro hl
  unfold finishSetup at hl
  simp only [Option.isSome_some, true_and] at hl
  split_ifs at hl with hgone
  · obtain ⟨hne, hl⟩ := Dict.lookup_erase_some hl
    exact hne ((h.keyed _ _ hl).1.symm.trans hid)
  · exact hgone (by rw [← hid, (h.keyed _ _ hl).1]; exact hl)

end Table

variable {o : Options} {s s' : State} {h r : ℕ} {c c' : Conn} {t : Table} {evicted : List ℕ} {a : Action}

def Stage.past (r : ℕ) : Stage → Bool
  | .acking _ q _ | .attaching _ q _ | .releasing _ q _ _ | .serving _ q _ | .leaving _ q => q = r
  | _ => false

structure Orderly (o : Options) (s : State) : Prop extends Sound o s where
  setups : ∀ r < s.table.fresh,
    s.conns.countP (fun c => c.stage.setsUp r) + (if (s.table.heap r).ready then 1 else 0) = 1
  readied : ∀ c ∈ s.conns, ∀ r, c.stage.past r = true → (s.table.heap r).outcome = (true, none)

theorem Stage.past_of_holds {g : Stage} (hg : g.holds r = true) : g.past r = true := by
  cases g <;> simp_all [Stage.holds, Stage.past]

theorem Bound.lt (hb : Bound t c) (hs : c.stage.past r = true ∨ c.stage.setsUp r = true) : r < t.fresh := by
  cases hg : c.stage <;> rw [hg] at hs <;> simp only [Stage.past, Stage.setsUp, decide_eq_true_eq, reduceCtorEq,
    or_false, false_or] at hs
  all_goals
    subst hs
    exact (hb _ _ (by rw [hg]; rfl)).1

theorem Orderly.setter_unready (hg : Orderly o s) (hc : c ∈ s.conns) (hs : c.stage.setsUp r = true) :
    (s.table.heap r).ready = false := by
  have hone := hg.setups r ((hg.bound c hc).lt (.inr hs))
  have hpos : 0 < s.conns.countP (fun c => c.stage.setsUp r) := countP_pos_iff.mpr ⟨c, hc, hs⟩
  split_ifs at hone with hr
  · omega
  · simpa using hr

section

variable (hg : Orderly o s) (hc : c ∈ s.conns) (hm : Moved o s h c c' t evicted) (hr : r < s.table.fresh)
include hg hc hm hr

theorem Moved.ready : (if (t.heap r).ready then 1 else 0) + (if c'.stage.setsUp r then 1 else 0) =
      (if (s.table.heap r).ready then 1 else 0) + (if c.stage.setsUp r then 1 else 0) := by
  cases hm with
  | free dest held set =>
    have : c'.stage.setsUp r = false := by cases hd : c'.stage <;> simp_all [Stage.free, Stage.setsUp]
    rw [set r, this]
  | entered src perm result dest =>
    rw [enterSession_heap hg.accounted result hr, src]
    rcases dest with ⟨_, -, hd⟩ | ⟨_, -, hd⟩ | ⟨q, rfl, hd⟩
    · rw [hd]; rfl
    · rw [hd]; rfl
    · have hq : q ≠ r := by
        rcases enterSession_cases hg.accounted result with ⟨-, -, ⟨_, he⟩ | ⟨_, he, -⟩⟩ | ⟨-, -, -, _, he⟩ |
          ⟨_, _, -, -, -, -, -, -, -, he⟩
        · cases he
        · cases he
        · cases he
        · obtain rfl := Entered.created.inj he
          exact (Nat.ne_of_lt hr).symm
      simp [hd, Stage.setsUp, hq]
  | joined src _ _ dest =>
    rw [src, dest, modify_field Session.ready _ (by intro; rfl)]
    rfl
  | @setup req q err src dest =>
    have hunready := hg.setter_unready (r := q) hc (by simp [src, Stage.setsUp])
    have hout : c'.stage.setsUp r = false := by
      rw [dest]
      cases err <;> rfl
    rw [src, hout]
    by_cases hq : r = q
    · subst q
      simp [finishSetup_ready, hunready, Stage.setsUp]
    · simp [finishSetup_heap_ne _ _ _ hq, Stage.setsUp, Ne.symm hq]
  | discarded src dest | closed src dest =>
    rw [src, dest, closeRelay_ready]
    rfl
  | acked src dest => rcases dest with dest | dest <;> (rw [src, dest]; rfl)
  | attached src dest =>
    rw [src, dest, attachPath_ready]
    rfl
  | released src dest =>
    rw [src, releaseSessionAttach_ready]
    rcases dest with dest | dest | dest <;> rw [dest] <;> rfl
  | left src dest | unattached src _ _ dest =>
    rw [src, dest]
    rfl
  | dropped dest => rw [dest]

theorem Moved.outcome (hready : (s.table.heap r).ready = true) :
    (t.heap r).outcome = (s.table.heap r).outcome := by
  cases hm with
  | free | acked | left | unattached | dropped => rfl
  | entered src perm result dest => rw [enterSession_heap hg.accounted result hr]
  | @setup req q err src dest =>
    have hq : r ≠ q := by
      rintro rfl
      rw [hg.setter_unready hc (by simp [src, Stage.setsUp])] at hready
      cases hready
    rw [finishSetup_heap_ne _ _ _ hq]
  | discarded | closed | joined | attached | released => exact modify_field Session.outcome _ (by intro; rfl) _ _ _

end

theorem Stepped.outcome (hg : Orderly o s) (hs : Stepped o s a s') (hr : r < s.table.fresh)
    (hready : (s.table.heap r).ready = true) : (s'.table.heap r).outcome = (s.table.heap r).outcome := by
  cases hs with
  | moved get by_ => exact by_.outcome hg (mem_of_getElem? get) hr hready
  | watched => exact removePath_outcome _ _ _ _
  | evictedClosed | reapClosed | shutdownClosed => exact closeRelay_outcome _ _ _
  | _ => rfl

theorem Moved.spawned (hg : Accounted o s.table) (hm : Moved o s h c c' t evicted) (hge : s.table.fresh ≤ r)
    (hlt : r < t.fresh) :
    (∃ req k, c.stage = .entering req ∧ c'.stage = .settingUp req r ∧ t.heap r = newSession s.clock req k) := by
  cases hm with
  | entered src perm result dest =>
    obtain ⟨rfl, k, hk⟩ := enterSession_new hg result hge hlt
    rcases dest with ⟨_, he, -⟩ | ⟨_, he, -⟩ | ⟨q, he, hd⟩
    · cases he
    · cases he
    · obtain rfl := Entered.created.inj he
      exact ⟨_, k, src, hd, hk⟩
  | setup src dest => exact absurd (finishSetup_fresh _ _ _ _ ▸ hlt) (Nat.not_lt.mpr hge)
  | _ => exact absurd hlt (Nat.not_lt.mpr hge)

section

variable (hg : Orderly o s)
include hg

theorem Moved.past (hc : c ∈ s.conns) (hm : Moved o s h c c' t evicted)
    (hp : c'.stage.past r = true) : (t.heap r).outcome = (true, none) := by
  have hold (hp' : c.stage.past r = true) : (t.heap r).outcome = (true, none) := by
    have hdone := hg.readied c hc r hp'
    exact (hm.outcome hg hc ((hg.bound c hc).lt (.inl hp')) (Prod.mk.inj hdone).1).trans hdone
  cases hm with
  | free dest => cases hd : c'.stage <;> simp_all [Stage.free, Stage.past]
  | entered src perm result dest =>
    rcases dest with ⟨_, -, hd⟩ | ⟨_, -, hd⟩ | ⟨_, -, hd⟩ <;> simp [hd, Stage.past] at hp
  | @joined req q src done present dest =>
    obtain rfl : q = r := by simpa [dest, Stage.past] using hp
    rw [modify_field Session.outcome _ (by intro; rfl)]
    exact Prod.ext done.1 done.2
  | @setup req q err src dest =>
    cases err with
    | some err => simp [dest, Stage.past] at hp
    | none =>
      obtain rfl : q = r := by simpa [dest, Stage.past] using hp
      exact finishSetup_outcome _ _ _ _
  | acked src dest => exact hold (by rcases dest with dest | dest <;> simpa [src, dest, Stage.past] using hp)
  | attached src dest | left src dest => exact hold (by simpa [src, dest, Stage.past] using hp)
  | released src dest =>
    apply hold
    rcases dest with dest | dest | dest <;> simp_all [Stage.past]
  | discarded src dest | unattached src _ _ dest | closed src dest => simp [dest, Stage.past] at hp
  | dropped dest => exact hold (by rwa [dest] at hp)

theorem Orderly.unborn {r : ℕ} (hr : s.table.fresh ≤ r) :
    s.conns.countP (fun c => c.stage.holds r) = 0 ∧ s.conns.countP (fun c => c.stage.setsUp r) = 0 := by
  constructor <;> rw [countP_eq_zero] <;> intro c hc hs
  · exact absurd ((hg.bound c hc).lt (.inl (Stage.past_of_holds hs))) (Nat.not_lt.mpr hr)
  · exact absurd ((hg.bound c hc).lt (.inr hs)) (Nat.not_lt.mpr hr)

theorem Stepped.setups (hs : Stepped o s a s') (r : ℕ) (hr : r < s'.table.fresh) :
    s'.conns.countP (fun c => c.stage.setsUp r) + (if (s'.table.heap r).ready then 1 else 0) = 1 := by
  cases hs with
  | accepted fresh silent =>
    rw [countP_append, countP_singleton, fresh]
    exact hg.setups r hr
  | @moved h a c c' t evicted get by_ =>
    have hset := countP_set_add (p := fun c => c.stage.setsUp r) (b := c') get
    dsimp only at hr ⊢
    rcases Nat.lt_or_ge r s.table.fresh with hlt | hge
    · have hbal := by_.ready hg (mem_of_getElem? get) hlt
      have hold := hg.setups r hlt
      omega
    · obtain ⟨req, k, hc, hc', hk⟩ := by_.spawned hg.accounted hge hr
      rw [(hg.unborn hge).2, hc, hc'] at hset
      rw [hk]
      simpa [Stage.setsUp, newSession] using hset
  | watched | evictedClosed | reapClosed | shutdownClosed => simpa using hg.setups r hr
  | _ => exact hg.setups r hr

theorem Stepped.readied (hs : Stepped o s a s') (c : Conn) (hc : c ∈ s'.conns) (r : ℕ)
    (hp : c.stage.past r = true) : (s'.table.heap r).outcome = (true, none) := by
  have hold (hc : c ∈ s.conns) : (s'.table.heap r).outcome = (true, none) := by
    have hdone := hg.readied c hc r hp
    exact (hs.outcome hg ((hg.bound c hc).lt (.inl hp)) (Prod.mk.inj hdone).1).trans hdone
  rcases hs.conn_cases hc with hc | fresh | ⟨_, from_, _, hfrom, by_⟩
  · exact hold hc
  · simp [fresh, Stage.past] at hp
  · exact by_.past hg hfrom hp

theorem Stepped.orderly (hs : Stepped o s a s') : Orderly o s' where
  toSound := hs.sound hg.toSound
  setups := hs.setups hg
  readied := hs.readied hg

end

theorem orderly_initial (o : Options) (now : ℤ) : Orderly o (.initial now) where
  toSound := sound_initial o now
  setups := by intro r hr; cases hr
  readied := by intro c hc; cases hc

/-- A session is set up by one handshake, which is still at it or has made it ready; none passes a session unready. -/
theorem session_set_up_once (o : Options) (now : ℤ) {as : List Action} {s : State}
    (h : Run (step o) anyStep (.initial now) as s) :
    (∀ r < s.table.fresh,
      s.conns.countP (fun c => c.stage.setsUp r) + (if (s.table.heap r).ready then 1 else 0) = 1) ∧
    ∀ c ∈ s.conns, ∀ r, c.stage.past r = true → (s.table.heap r).outcome = (true, none) := by
  have hg : Orderly o s := h.invariant (fun hg _ ht => (step_cases ht).orderly hg) (orderly_initial o now)
  exact ⟨hg.setups, hg.readied⟩

theorem session_set_up_once_superseding : ∃ s, exec (step soleUser) (.initial 0) superseding = some s ∧
    s.table.fresh = 2 ∧ ∀ r < s.table.fresh,
      s.conns.countP (fun c => c.stage.setsUp r) + (if (s.table.heap r).ready then 1 else 0) = 1 := by
  refine (exists_some_of_decide ?_).imp fun s ⟨hs, hfresh⟩ =>
    ⟨hs, hfresh, (session_set_up_once soleUser 0 (.of_exec hs)).1⟩
  decide +kernel

end Hydracore.Parasite.Server
