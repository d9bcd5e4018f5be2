import Hydracore.Parasite.Server.Moves
import Hydracore.Systems.Runs
import Hydracore.Systems.Tasks

namespace Hydracore.Parasite.Server

open Formats Systems

def Session.identity (s : Session) : SessionID × Bytes × UInt32 × UInt16 × UInt64 × ℤ :=
  (s.id, s.user, s.conv, s.expected, s.generation, s.createdAt)

variable {evicted : List ℕ}

namespace Table

structure Extends (t t' : Table) : Prop where
  fresh : t.fresh ≤ t'.fresh
  same : ∀ r < t.fresh, (t'.heap r).identity = (t.heap r).identity
  old : ∀ id r, t'.sessions.lookup id = some r → t.sessions.lookup id = some r ∨ t.fresh ≤ r

variable {o : Options} {t t' : Table}

theorem Extends.of_sessions (hf : t'.fresh = t.fresh) (hs : t'.sessions = t.sessions)
    (hi : ∀ r < t.fresh, (t'.heap r).identity = (t.heap r).identity) : Extends t t' where
  fresh := hf.ge
  same := hi
  old := fun _ _ h => .inl (hs ▸ h)

theorem Extends.refl (t : Table) : Extends t t := .of_sessions rfl rfl (fun _ _ => rfl)

variable {r : ℕ}

section

variable (h : Extends t t')
include h

theorem Extends.trans {t'' : Table} (h' : Extends t' t'') : Extends t t'' where
  fresh := h.fresh.trans h'.fresh
  same := fun r hr => (h'.same r (hr.trans_le h.fresh)).trans (h.same r hr)
  old := by
    intro id r hl
    rcases h'.old id r hl with hl | hr
    · exact h.old id r hl
    · exact .inr (h.fresh.trans hr)

theorem Extends.id_eq (hr : r < t.fresh) : (t'.heap r).id = (t.heap r).id :=
  congrArg (fun x => x.1) (h.same r hr)

theorem Extends.user_eq (hr : r < t.fresh) : (t'.heap r).user = (t.heap r).user :=
  congrArg (fun x => x.2.1) (h.same r hr)

theorem Extends.generation_eq (hr : r < t.fresh) : (t'.heap r).generation = (t.heap r).generation :=
  congrArg (fun x => x.2.2.2.2.1) (h.same r hr)

theorem Extends.createdAt_eq (hr : r < t.fresh) : (t'.heap r).createdAt = (t.heap r).createdAt :=
  congrArg (fun x => x.2.2.2.2.2) (h.same r hr)

end

theorem extends_modify (t : Table) (r : ℕ) {f : Session → Session} (hf : ∀ s, (f s).identity = s.identity) :
    Extends t (t.modify r f) := .of_sessions rfl rfl (fun q _ => modify_field Session.identity f hf t r q)

theorem extends_register (t : Table) (s : Session) : Extends t (t.register s) where
  fresh := Nat.le_succ _
  same := by
    intro r hr
    simp only [register, Function.update_of_ne (Nat.ne_of_lt hr)]
  old := by
    intro id r hl
    rcases Dict.lookup_insert_some hl with ⟨-, rfl⟩ | ⟨-, hl⟩
    · exact .inr le_rfl
    · exact .inl hl

theorem extends_unregister (t : Table) (id : SessionID) (user : Bytes) : Extends t (t.unregister id user) :=
  ⟨Nat.le_refl _, fun _ _ => rfl, fun _ _ hl => .inl (Dict.lookup_erase_some hl).2⟩

theorem Evicted.extends {user : Bytes} {gone : List ℕ} (h : Evicted user t t' gone) : Extends t t' :=
  ⟨h.fresh.ge, fun r _ => by rw [h.heap], fun id r hl => .inl (h.kept id r hl).1⟩

theorem extends_enterSession (h : Accounted o t) {now : ℤ} {req : AuthRequest} {order : List SessionID}
    {g : Option Generation} {e : Entered}
    (he : t.enterSession o now req order g = (t', evicted, e)) : Extends t t' := by
  rcases enterSession_cases h he with ⟨rfl, -⟩ | ⟨-, hev, -⟩ | ⟨t₁, k, -, hev, -, -, -, -, rfl, -⟩
  · exact .refl t'
  · exact hev.extends
  · exact hev.extends.trans (extends_register t₁ _)

theorem extends_finishSetup (t : Table) (req : AuthRequest) (r : ℕ) (err : Option String) :
    Extends t (t.finishSetup req r err) := by
  have h₁ := extends_modify t r (f := fun s => { s with setupErr := err, ready := true }) (fun _ => rfl)
  unfold finishSetup
  simp only
  split_ifs
  · exact h₁.trans (extends_unregister _ _ _)
  · exact h₁.trans (extends_modify _ r (fun _ => rfl))
  · exact h₁

end Table

open Table

variable {o : Options} {s s' : State} {c c' : Conn} {t : Table}

theorem Moved.extends {h : ℕ} (hacc : Accounted o s.table)
    (hm : Moved o s h c c' t evicted) : Extends s.table t := by
  cases hm with
  | free | acked | left | dropped => exact .refl _
  | entered src perm result dest => exact extends_enterSession hacc result
  | setup src dest => exact extends_finishSetup _ _ _ _
  | discarded | joined | attached | released | closed => exact extends_modify _ _ (fun _ => rfl)
  | unattached => exact extends_unregister _ _ _

theorem Stepped.extends {a : Action} (hacc : Accounted o s.table) (hs : Stepped o s a s') :
    Extends s.table s'.table := by
  cases hs with
  | accepted | ticked | rested | spared | cancelled | passed => exact .refl _
  | moved get by_ => exact by_.extends hacc
  | watched | evictedClosed | reapClosed | shutdownClosed =>
    dsimp only
    exact extends_modify _ _ (fun _ => rfl)
  | reaped => exact extends_unregister _ _ _
  | cleared => exact ⟨Nat.le_refl _, fun _ _ => rfl, by intro id r hl; simp [Table.clear] at hl⟩

def Stage.session : Stage → Option (AuthRequest × ℕ)
  | .waiting req r | .settingUp req r | .acking req r _ | .attaching req r _ | .releasing req r _ _
  | .serving req r _ | .leaving req r => some (req, r)
  | _ => none

def Bound (t : Table) (c : Conn) : Prop :=
  ∀ req r, c.stage.session = some (req, r) →
    r < t.fresh ∧ (t.heap r).id = req.sessionID ∧ (t.heap r).user = req.user

theorem Bound.mono {t t' : Table} {c : Conn} (h : Bound t c) (he : Extends t t') : Bound t' c := by
  intro req r hs
  obtain ⟨hr, hid, hu⟩ := h req r hs
  exact ⟨hr.trans_le he.fresh, (he.id_eq hr).trans hid, (he.user_eq hr).trans hu⟩

theorem Bound.of_session (h : Bound t c)
    (hs : c'.stage.session = none ∨ c'.stage.session = c.stage.session) : Bound t c' := by
  intro req r hr
  rcases hs with hs | hs
  · rw [hs] at hr
    cases hr
  · exact h req r (hs ▸ hr)

theorem Moved.bound {h : ℕ} (hacc : Accounted o s.table)
    (hb : Bound s.table c) (hm : Moved o s h c c' t evicted) : Bound t c' := by
  have he := hm.extends hacc
  cases hm with
  | free dest held set =>
    refine hb.of_session (.inl ?_)
    cases hd : c'.stage <;> simp_all [Stage.free, Stage.session]
  | @entered req order g t evicted e src perm result dest =>
    rcases dest with ⟨err, rfl, hd⟩ | ⟨r, rfl, hd⟩ | ⟨r, rfl, hd⟩
    · exact (hb.mono he).of_session (.inl (by rw [hd]; rfl))
    · rcases enterSession_cases hacc result with ⟨rfl, -, ⟨_, h⟩ | ⟨q, hq, hl, hu⟩⟩ | ⟨-, -, -, _, h⟩ |
        ⟨_, _, -, -, -, -, -, -, -, h⟩
      · cases h
      · obtain rfl : r = q := Entered.joining.inj hq
        obtain ⟨hid, hlt⟩ := hacc.keyed _ _ hl
        intro req' r' hs
        rw [hd] at hs
        cases hs
        exact ⟨hlt, hid, hu⟩
      · cases h
      · cases h
    · rcases enterSession_cases hacc result with ⟨rfl, -, ⟨_, h⟩ | ⟨q, hq, hl, hu⟩⟩ | ⟨-, -, -, _, h⟩ |
        ⟨t₁, k, -, hev, -, -, -, -, rfl, h⟩
      · cases h
      · cases hq
      · cases h
      · obtain rfl : r = s.table.fresh := Entered.created.inj h
        intro req' r' hs
        rw [hd] at hs
        cases hs
        rw [← hev.fresh]
        simp [register, newSession]
  | joined src _ _ dest | attached src dest =>
    exact (hb.mono he).of_session (.inr (by rw [src, dest]; rfl))
  | @setup req r err src dest =>
    apply (hb.mono he).of_session
    rw [src, dest]
    cases err <;> simp [Stage.session]
  | discarded src dest | unattached src _ _ dest | closed src dest =>
    exact (hb.mono he).of_session (.inl (by rw [dest]; rfl))
  | acked src dest =>
    refine hb.of_session (.inr ?_)
    rcases dest with dest | dest <;> (rw [src, dest]; rfl)
  | released src dest =>
    apply (hb.mono he).of_session
    rcases dest with dest | dest | dest <;> (rw [src, dest]; simp [Stage.session])
  | left src dest => exact hb.of_session (.inr (by rw [src, dest]; rfl))
  | dropped dest => exact hb.of_session (.inr (by rw [dest]))

structure Sound (o : Options) (s : State) : Prop where
  accounted : Accounted o s.table
  bound : ∀ c ∈ s.conns, Bound s.table c

theorem sound_initial (o : Options) (now : ℤ) : Sound o (.initial now) :=
  ⟨accounted_clear o .empty, by intro c hc; simp [State.initial] at hc⟩

theorem Moved.accounted {h : ℕ} {c c' : Conn} {t : Table} {evicted : List ℕ} (hacc : Accounted o s.table)
    (hb : Bound s.table c) (hm : Moved o s h c c' t evicted) : Accounted o t := by
  cases hm with
  | free | acked | left | dropped => exact hacc
  | entered src perm result dest => exact hacc.enterSession result
  | setup src dest => exact hacc.finishSetup (hb _ _ (by rw [src]; rfl)).2.2
  | discarded | joined | attached | released | closed => exact hacc.modify _ (fun _ => rfl) (fun _ => rfl)
  | unattached src present => exact hacc.unregister present rfl

theorem Stepped.accounted {a : Action} (h : Sound o s) (hs : Stepped o s a s') : Accounted o s'.table := by
  cases hs with
  | accepted | ticked | rested | spared | cancelled | passed => exact h.accounted
  | moved get by_ => exact by_.accounted h.accounted (h.bound _ (List.mem_of_getElem? get))
  | watched | evictedClosed | reapClosed | shutdownClosed =>
    dsimp only
    exact h.accounted.modify _ (fun _ => rfl) (fun _ => rfl)
  | reaped src result => exact h.accounted.unregister (deleteUnattached_some result).1 rfl
  | cleared => exact accounted_clear o _

theorem Stepped.conn_cases {a : Action} {c : Conn} (hs : Stepped o s a s') (hc : c ∈ s'.conns) :
    c ∈ s.conns ∨ c.stage = .arrived ∨
      ∃ h from_ evicted, from_ ∈ s.conns ∧ Moved o s h from_ c s'.table evicted := by
  cases hs with
  | accepted fresh =>
    rcases mem_concat_cases hc with hc | rfl
    · exact .inl hc
    · exact .inr (.inl fresh)
  | moved get by_ =>
    rcases List.mem_or_eq_of_mem_set hc with hc | rfl
    · exact .inl hc
    · exact .inr (.inr ⟨_, _, _, List.mem_of_getElem? get, by_⟩)
  | _ => exact .inl hc

theorem Stepped.sound {a : Action} (h : Sound o s) (hs : Stepped o s a s') : Sound o s' := by
  refine ⟨hs.accounted h, fun c hc => ?_⟩
  rcases hs.conn_cases hc with hc | fresh | ⟨_, from_, _, hfrom, by_⟩
  · exact (h.bound c hc).mono (hs.extends h.accounted)
  · intro req r hr
    rw [fresh] at hr
    cases hr
  · exact by_.bound h.accounted (h.bound from_ hfrom)

theorem sound_run {cond : State → Action → Prop} {now : ℤ} {as : List Action}
    (h : Run (step o) cond (.initial now) as s) : Sound o s :=
  h.invariant (fun hp _ ht => (step_cases ht).sound hp) (sound_initial o now)

theorem session_accounts (o : Options) (now : ℤ) (as : List Action) (s : State)
    (h : Run (step o) anyStep (.initial now) as s) :
    (∀ user, s.table.userCount user = s.table.sessions.count (fun _ r => (s.table.heap r).user = user)) ∧
      s.table.sessions.size ≤ o.maxSessions ∧ ∀ user record, o.users.lookup user = some record →
        s.table.sessions.count (fun _ r => (s.table.heap r).user = user) ≤ record.maxSessions := by
  have hsound := (sound_run h).accounted
  refine ⟨hsound.counted, hsound.total, ?_⟩
  intro user record hr
  have hle := hsound.limited user
  rwa [Options.userLimit, hr] at hle

def soleUser : Options :=
  ⟨AList.singleton [117] ⟨[112], 1⟩, 1, 4, 256, 300000000000, id⟩

def soleRequest (id : UInt8) : AuthRequest := ⟨10, Vector.replicate 16 id, 1, 0, 4, 1, 1, [117], [112]⟩

def firstGeneration : Generation := ⟨7, by decide⟩

def secondGeneration : Generation := ⟨9, by decide⟩

def opens (h : ℕ) (id : UInt8) (order : List SessionID) (g : Generation) : List Action :=
  [.accept, .conn h .take, .conn h (.read (.request (soleRequest id))), .conn h (.enter order (some g)),
    .conn h (.setup none), .conn h (.ack true), .conn h .attach, .conn h .release]

def superseding : List Action :=
  opens 0 1 [] firstGeneration ++ opens 1 2 [Vector.replicate 16 1] secondGeneration ++ [Action.closeEvicted 0]

theorem session_accounts_superseding : ∃ s, exec (step soleUser) (.initial 0) superseding = some s ∧
    s.table.sessions.lookup (Vector.replicate 16 2) = some 1 ∧ s.table.userCount [117] = 1 ∧
      s.table.sessions.size ≤ 1 := by
  refine (exists_some_of_decide (P := fun s => s.table.sessions.lookup (Vector.replicate 16 2) = some 1 ∧
    s.table.sessionsOf [117] = 1) ?_).imp fun s ⟨hs, hlook, hcount⟩ => ⟨hs, hlook, ?_⟩
  · decide +kernel
  · obtain ⟨hmaps, htotal, -⟩ := session_accounts soleUser 0 superseding s (.of_exec hs)
    exact ⟨(hmaps [117]).trans (congrArg Nat.cast hcount), htotal⟩

end Hydracore.Parasite.Server
