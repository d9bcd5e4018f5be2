import Hydracore.Parasite.Server.Setup

namespace Hydracore.Parasite.Server

open Systems Table List Stage

variable {o : Options} {s s' : State} {h r : ℕ} {c c' : Conn} {t : Table} {evicted : List ℕ} {a : Action}

def Stage.scraps (r : ℕ) : Stage → Bool
  | .discarding q | .closing q => q = r
  | _ => false

def Gone (t : Table) (r : ℕ) : Prop := r < t.fresh ∧ ∀ id, t.sessions.lookup id ≠ some r

theorem Gone.mono {t t' : Table} (h : Gone t r) (he : Extends t t') : Gone t' r := by
  refine ⟨h.1.trans_le he.fresh, fun id hl => ?_⟩
  rcases he.old id r hl with hl | hr
  · exact h.2 id hl
  · exact absurd h.1 (Nat.not_lt.mpr hr)

inductive Doomed (s : State) (r : ℕ) : Prop
  | evictor (mem : r ∈ s.closers)
  | reaper (cutoff : ℤ) (stale : List ℕ) (src : s.reaper = .closing r cutoff stale)
  | conn (c : Conn) (mem : c ∈ s.conns) (scraps : c.stage.scraps r = true)

structure Guarded (o : Options) (s : State) : Prop extends Orderly o s where
  running : s.shutdown = .running
  pending : ∀ r < s.table.fresh, (s.table.heap r).pendingAttaches = s.conns.countP (fun c => c.stage.holds r)
  present : ∀ c ∈ s.conns, ∀ r, c.stage.holds r = true ∨ c.stage.setsUp r = true →
    s.table.sessions.lookup (s.table.heap r).id = some r
  doomed : ∀ r, Doomed s r → Gone s.table r
  shut : ∀ r < s.table.fresh, (s.table.heap r).relay.closed = true → Gone s.table r

section

variable (hg : Guarded o s) (hc : c ∈ s.conns)
include hg hc

theorem Guarded.holder_pending (hh : c.stage.holds r = true) : 0 < (s.table.heap r).pendingAttaches := by
  rw [hg.pending r ((hg.bound c hc).lt (.inl (Stage.past_of_holds hh)))]
  exact List.countP_pos_iff.mpr ⟨c, hc, hh⟩

theorem Guarded.setter_unheld (hs : c.stage.setsUp r = true) : (s.table.heap r).pendingAttaches = 0 := by
  rw [hg.pending r ((hg.bound c hc).lt (.inr hs)), List.countP_eq_zero]
  intro d hd hh
  have hready := (Prod.mk.inj (hg.readied d hd r (Stage.past_of_holds hh))).1
  rw [hg.setter_unready hc hs] at hready
  cases hready

theorem Moved.pending (hm : Moved o s h c c' t evicted) (hr : r < s.table.fresh) :
    (t.heap r).pendingAttaches + (if c.stage.holds r then 1 else 0) =
      (s.table.heap r).pendingAttaches + (if c'.stage.holds r then 1 else 0) := by
  cases hm with
  | free dest held set =>
    have : c'.stage.holds r = false := by cases hd : c'.stage <;> simp_all [Stage.free, Stage.holds]
    rw [held r, this]
  | entered src perm result dest =>
    rw [enterSession_heap hg.accounted result hr, src]
    rcases dest with ⟨_, -, hd⟩ | ⟨_, -, hd⟩ | ⟨_, -, hd⟩ <;> rw [hd] <;> rfl
  | @joined req q src done present dest =>
    rw [src, dest]
    by_cases hq : r = q
    · subst q
      simp [Table.modify, Stage.holds]
    · simp [Table.modify, Stage.holds, Function.update_of_ne hq, Ne.symm hq]
  | @setup req q err src dest =>
    have hl := hg.present c hc q (.inr (by simp [src, Stage.setsUp]))
    rw [(hg.bound c hc req q (by rw [src]; rfl)).2.1] at hl
    rw [src, dest]
    by_cases hq : r = q
    · subst q
      rw [finishSetup_pending _ _ _ _ hl]
      cases err <;> simp [Stage.holds]
    · rw [finishSetup_heap_ne _ _ _ hq]
      cases err <;> simp [Stage.holds, Ne.symm hq]
  | discarded src dest | closed src dest =>
    rw [src, dest, closeRelay_pendingAttaches]
    rfl
  | acked src dest => rcases dest with dest | dest <;> (rw [src, dest]; rfl)
  | attached src dest =>
    rw [src, dest, attachPath_pendingAttaches]
    rfl
  | @released req q created served src dest =>
    have hpos := hg.holder_pending (r := q) hc (by simp [src, Stage.holds])
    have hout : c'.stage.holds r = false := by
      rcases dest with dest | dest | dest <;> rw [dest] <;> rfl
    rw [hout, src]
    by_cases hq : r = q
    · subst q
      simp only [releaseSessionAttach, Table.modify, Function.update_self, Stage.holds, decide_true, if_true]
      simp only [Bool.false_eq_true, if_false]
      omega
    · simp [releaseSessionAttach, Table.modify, Function.update_of_ne hq, Stage.holds, Ne.symm hq]
  | left src dest | unattached src present unheld dest =>
    rw [src, dest]
    rfl
  | dropped dest => rw [dest]

end

section

variable (hg : Guarded o s)
include hg

section

variable (hc : c ∈ s.conns) (hm : Moved o s h c c' t evicted)
include hc hm

theorem Moved.lost {id : SessionID} (hl : s.table.sessions.lookup id = some r) :
    t.sessions.lookup id = some r ∨ ((t.heap r).pendingAttaches = 0 ∧ (t.heap r).ready = true) := by
  cases hm with
  | free | acked | left | dropped | discarded | joined | closed | attached | released => exact .inl hl
  | entered src perm result dest =>
    rw [enterSession_heap hg.accounted result (hg.accounted.keyed _ _ hl).2]
    exact enterSession_lost hg.accounted result hl
  | @setup req q err src dest =>
    have hset : c.stage.setsUp q = true := by simp [src, Stage.setsUp]
    rcases finishSetup_lookup (r := q) s.table req err hl with hl' | ⟨rfl, herr⟩
    · exact .inl hl'
    · have hb := hg.bound c hc req r (by rw [src]; rfl)
      have hpres := hg.present c hc r (.inr hset)
      rw [hb.2.1] at hpres
      refine .inr ⟨?_, finishSetup_ready _ _ _ _⟩
      rw [finishSetup_pending _ _ _ _ hpres, if_pos herr, hg.setter_unheld hc hset]
  | unattached src present unheld dest =>
    rcases unregister_lost present hl with hl' | rfl
    · exact .inl hl'
    · exact .inr ⟨unheld, (Prod.mk.inj (hg.readied c hc r (by simp [src, Stage.past]))).1⟩

theorem Moved.origin (hs : c'.stage.holds r = true ∨ c'.stage.setsUp r = true) :
    (r < s.table.fresh ∧ s.table.sessions.lookup (s.table.heap r).id = some r) ∨
      t.sessions.lookup (t.heap r).id = some r := by
  have hold (hc' : c.stage.holds r = true ∨ c.stage.setsUp r = true) :
      r < s.table.fresh ∧ s.table.sessions.lookup (s.table.heap r).id = some r :=
    ⟨(hg.bound c hc).lt (hc'.imp_left Stage.past_of_holds), hg.present c hc r hc'⟩
  cases hm with
  | free dest => cases hd : c'.stage <;> simp_all [Stage.free, Stage.holds, Stage.setsUp]
  | @entered req order g t evicted e src perm result dest =>
    rcases dest with ⟨_, -, hd⟩ | ⟨_, -, hd⟩ | ⟨q, rfl, hd⟩
    · simp [hd, Stage.holds, Stage.setsUp] at hs
    · simp [hd, Stage.holds, Stage.setsUp] at hs
    · obtain rfl : q = r := by simpa [hd, Stage.holds, Stage.setsUp] using hs
      rcases enterSession_cases hg.accounted result with ⟨-, -, ⟨_, he⟩ | ⟨_, he, -⟩⟩ | ⟨-, -, -, _, he⟩ |
        ⟨t₁, k, -, hev, -, -, -, -, rfl, he⟩
      · cases he
      · cases he
      · cases he
      · obtain rfl : q = t₁.fresh := hev.fresh ▸ Entered.created.inj he
        exact .inr (register_lookup t₁ _)
  | @joined req q src done present dest =>
    obtain rfl : q = r := by simpa [dest, Stage.holds, Stage.setsUp] using hs
    have hb := hg.bound c hc req q (by rw [src]; rfl)
    exact .inl ⟨hb.1, hb.2.1 ▸ present⟩
  | @setup req q err src dest =>
    cases err with
    | some err => simp [dest, Stage.holds, Stage.setsUp] at hs
    | none =>
      obtain rfl : q = r := by simpa [dest, Stage.holds, Stage.setsUp] using hs
      exact .inl (hold (.inr (by simp [src, Stage.setsUp])))
  | acked src dest =>
    refine .inl (hold (.inl ?_))
    rcases dest with dest | dest <;> simpa [src, dest, Stage.holds, Stage.setsUp] using hs
  | attached src dest =>
    exact .inl (hold (.inl (by simpa [src, dest, Stage.holds, Stage.setsUp] using hs)))
  | released src dest => rcases dest with dest | dest | dest <;> simp [dest, Stage.holds, Stage.setsUp] at hs
  | discarded src dest | left src dest | unattached src _ _ dest | closed src dest =>
    simp [dest, Stage.holds, Stage.setsUp] at hs
  | dropped dest => exact .inl (hold (by rwa [dest] at hs))

theorem Moved.scraps (hs : c'.stage.scraps r = true) : Gone t r := by
  cases hm with
  | free dest => cases hd : c'.stage <;> simp_all [Stage.free, Stage.scraps]
  | entered src perm result dest =>
    rcases dest with ⟨_, -, hd⟩ | ⟨_, -, hd⟩ | ⟨_, -, hd⟩ <;> simp [hd, Stage.scraps] at hs
  | joined src _ _ dest | attached src dest | discarded src dest | left src dest | closed src dest =>
    simp [dest, Stage.scraps] at hs
  | @setup req q err src dest =>
    cases err with
    | none => simp [dest, Stage.scraps] at hs
    | some err =>
      obtain rfl : q = r := by simpa [dest, Stage.scraps] using hs
      obtain ⟨hlt, hid, -⟩ := hg.bound c hc req q (by rw [src]; rfl)
      exact ⟨hlt.trans_le (extends_finishSetup _ _ _ _).fresh, finishSetup_failed hg.accounted req err hid⟩
  | acked src dest => rcases dest with dest | dest <;> simp [dest, Stage.scraps] at hs
  | released src dest => rcases dest with dest | dest | dest <;> simp [dest, Stage.scraps] at hs
  | @unattached req q src present unheld dest =>
    obtain rfl : q = r := by simpa [dest, Stage.scraps] using hs
    exact ⟨(hg.accounted.keyed _ _ present).2, unregister_gone hg.accounted present⟩
  | dropped dest =>
    rw [dest] at hs
    exact hg.doomed r (.conn c hc hs)

end

theorem Moved.evicts (hm : Moved o s h c c' t evicted) (hr : r ∈ evicted) : Gone t r := by
  cases hm with
  | entered src perm result dest => exact enterSession_evicted hg.accounted result hr
  | _ => simp at hr

theorem Moved.closes (hm : Moved o s h c c' t evicted) (hr : r < t.fresh)
    (hclosed : (t.heap r).relay.closed = true) :
    (r < s.table.fresh ∧ (s.table.heap r).relay.closed = true) ∨ c.stage.scraps r = true := by
  cases hm with
  | free | acked | left | unattached | dropped => exact .inl ⟨hr, hclosed⟩
  | entered src perm result dest =>
    rcases Nat.lt_or_ge r s.table.fresh with hlt | hge
    · exact .inl ⟨hlt, enterSession_heap hg.accounted result hlt ▸ hclosed⟩
    · obtain ⟨-, k, hk⟩ := enterSession_new hg.accounted result hge hr
      simp [hk, newSession] at hclosed
  | setup src dest => exact .inl ⟨finishSetup_fresh _ _ _ _ ▸ hr, finishSetup_relay _ _ _ _ _ ▸ hclosed⟩
  | @discarded q src dest | @closed q src dest =>
    by_cases hq : r = q
    · exact .inr (by simp [src, Stage.scraps, hq])
    · exact .inl ⟨hr, closeRelay_heap_ne _ hq ▸ hclosed⟩
  | joined | attached | released =>
    exact .inl ⟨hr, (modify_field (fun s => s.relay.closed) _ (by intro; rfl) _ _ _).symm.trans hclosed⟩

end

def patient (s : State) : Action → Bool
  | .cancel => false
  | .reap =>
    match s.reaper with
    | .deleting idleCutoff (r :: _) =>
      (s.table.deleteIdleSession (s.table.heap r).id r idleCutoff).isNone || (s.table.heap r).ready
    | _ => true
  | _ => true

section

variable (hg : Guarded o s) (hs : Stepped o s a s')
include hg hs

theorem Stepped.pending (r : ℕ) (hr : r < s'.table.fresh) :
    (s'.table.heap r).pendingAttaches = s'.conns.countP (fun c => c.stage.holds r) := by
  cases hs with
  | accepted fresh silent =>
    rw [countP_append, countP_singleton, fresh]
    exact hg.pending r hr
  | @moved h a c c' t evicted get by_ =>
    have hset := countP_set_add (p := fun c => c.stage.holds r) (b := c') get
    dsimp only at hr ⊢
    rcases Nat.lt_or_ge r s.table.fresh with hlt | hge
    · have hbal := by_.pending hg (mem_of_getElem? get) hlt
      have hold := hg.pending r hlt
      omega
    · obtain ⟨req, k, hc, hc', hk⟩ := by_.spawned hg.accounted hge hr
      rw [(hg.unborn hge).1, hc, hc'] at hset
      rw [hk]
      exact hset.symm
  | watched | evictedClosed | reapClosed | shutdownClosed => simpa using hg.pending r hr
  | _ => exact hg.pending r hr

theorem Stepped.doomed (r : ℕ) (hd : Doomed s' r) : Gone s'.table r := by
  have he := hs.extends hg.accounted
  have hold (hd : Doomed s r) : Gone s'.table r := (hg.doomed r hd).mono he
  rcases hd with hm | ⟨_, _, src⟩ | ⟨c, hc, hscraps⟩
  · cases hs with
    | moved get by_ =>
      rcases mem_append.mp hm with hm | hm
      · exact hold (.evictor hm)
      · exact by_.evicts hg hm
    | evictedClosed get => exact hold (.evictor (mem_of_mem_eraseIdx hm))
    | _ => exact hold (.evictor hm)
  · cases hs with
    | reaped src' result =>
      obtain ⟨rfl, -, -⟩ := Reaper.closing.inj src
      obtain ⟨hq, -⟩ := deleteUnattached_some result
      exact ⟨(hg.accounted.keyed _ _ hq).2, unregister_gone hg.accounted hq⟩
    | ticked | rested | spared | reapClosed => cases src
    | _ => exact hold (.reaper _ _ src)
  · rcases hs.conn_cases hc with hc | fresh | ⟨_, from_, _, hfrom, by_⟩
    · exact hold (.conn c hc hscraps)
    · simp [fresh, scraps] at hscraps
    · exact by_.scraps hg hfrom hscraps

variable (hp : patient s a = true)
include hp

theorem Stepped.running : s'.shutdown = .running := by
  have hrun := hg.running
  cases hs with
  | cancelled => cases hp
  | cleared src | shutdownClosed src =>
    rw [hrun] at src
    cases src
  | _ => exact hrun

theorem Stepped.lost {id : SessionID} {r : ℕ} (hl : s.table.sessions.lookup id = some r) :
    s'.table.sessions.lookup id = some r ∨
      ((s'.table.heap r).pendingAttaches = 0 ∧ (s'.table.heap r).ready = true) := by
  have hrun := hg.running
  cases hs with
  | moved get by_ => exact by_.lost hg (mem_of_getElem? get) hl
  | reaped src result =>
    rw [patient, src] at hp
    simp only [deleteIdleSession, result, Option.isNone_some, Bool.false_or] at hp
    obtain ⟨hq, hpend, -, -⟩ := deleteUnattached_some result
    rcases unregister_lost hq hl with hl | rfl
    · exact .inl hl
    · exact .inr ⟨hpend, hp⟩
  | cleared src =>
    rw [hrun] at src
    cases src
  | _ => exact .inl hl

theorem Stepped.present (c : Conn) (hc : c ∈ s'.conns) (r : ℕ)
    (hr : c.stage.holds r = true ∨ c.stage.setsUp r = true) :
    s'.table.sessions.lookup (s'.table.heap r).id = some r := by
  have he := hs.extends hg.accounted
  have hlt : r < s'.table.fresh := ((hs.sound hg.toSound).bound c hc).lt (hr.imp_left past_of_holds)
  -- the goroutine itself keeps the session from being taken out
  have hstays (hpre : r < s.table.fresh ∧ s.table.sessions.lookup (s.table.heap r).id = some r) :
      s'.table.sessions.lookup (s'.table.heap r).id = some r := by
    rw [he.id_eq hpre.1]
    rcases hs.lost hg hp hpre.2 with hl | ⟨hpend, hready⟩
    · exact hl
    · rcases hr with hh | hset
      · rw [hs.pending hg r hlt, countP_eq_zero] at hpend
        exact absurd hh (hpend c hc)
      · have hone := hs.setups hg.toOrderly r hlt
        have hpos : 0 < s'.conns.countP (fun c => c.stage.setsUp r) := countP_pos_iff.mpr ⟨c, hc, hset⟩
        rw [if_pos hready] at hone
        omega
  have hold (hc : c ∈ s.conns) : s'.table.sessions.lookup (s'.table.heap r).id = some r :=
    hstays ⟨(hg.bound c hc).lt (hr.imp_left past_of_holds), hg.present c hc r hr⟩
  rcases hs.conn_cases hc with hc | fresh | ⟨_, from_, _, hfrom, by_⟩
  · exact hold hc
  · simp [fresh, holds, setsUp] at hr
  · exact (by_.origin hg hfrom hr).elim hstays id

theorem Stepped.shut (r : ℕ) (hr : r < s'.table.fresh) (hclosed : (s'.table.heap r).relay.closed = true) :
    Gone s'.table r := by
  have he := hs.extends hg.accounted
  have hrun := hg.running
  have hold (hpre : r < s.table.fresh ∧ (s.table.heap r).relay.closed = true) : Gone s'.table r :=
    (hg.shut r hpre.1 hpre.2).mono he
  have hcloser (q : ℕ) (hd : Doomed s q) (heq : s'.table = s.table.closeRelay q) : Gone s'.table r := by
    by_cases hq : r = q
    · exact hq ▸ (hg.doomed q hd).mono he
    · rw [heq, closeRelay_heap_ne _ hq] at hclosed
      rw [heq] at hr
      exact hold ⟨hr, hclosed⟩
  cases hs with
  | moved get by_ =>
    rcases by_.closes hg hr hclosed with hpre | hscraps
    · exact hold hpre
    · exact (hg.doomed r (.conn _ (mem_of_getElem? get) hscraps)).mono he
  | watched path => exact hold ⟨hr, removePath_closed _ _ _ _ ▸ hclosed⟩
  | evictedClosed get => exact hcloser _ (.evictor (mem_of_getElem? get)) rfl
  | reapClosed src => exact hcloser _ (.reaper _ _ src) rfl
  | shutdownClosed src =>
    rw [hrun] at src
    cases src
  | _ => exact hold ⟨hr, hclosed⟩

theorem Stepped.guarded : Guarded o s' where
  toOrderly := hs.orderly hg.toOrderly
  running := hs.running hg hp
  pending := hs.pending hg
  present := hs.present hg hp
  doomed := hs.doomed hg
  shut := hs.shut hg hp

end

theorem guarded_initial (o : Options) (now : ℤ) : Guarded o (.initial now) where
  toOrderly := orderly_initial o now
  running := rfl
  pending := by intro r hr; cases hr
  present := by intro c hc; cases hc
  doomed := by
    intro r hd
    rcases hd with hm | ⟨_, _, src⟩ | ⟨c, hc, -⟩
    · cases hm
    · cases src
    · cases hc
  shut := by intro r hr; cases hr

theorem guarded_run {now : ℤ} {as : List Action} (h : Run (step o) (patient · ·) (.initial now) as s) : Guarded o s :=
  h.invariant (fun hg hp ht => (step_cases ht).guarded hg hp) (guarded_initial o now)

theorem attached_session_safe (o : Options) (now : ℤ) (as : List Action) (s : State)
    (h : Run (step o) (patient · ·) (.initial now) as s) : ∀ c ∈ s.conns, ∀ r, c.stage.holds r = true →
      s.table.sessions.lookup (s.table.heap r).id = some r ∧ (s.table.heap r).relay.closed = false := by
  intro c hc r hr
  have hg := guarded_run h
  have hpres := hg.present c hc r (.inl hr)
  refine ⟨hpres, ?_⟩
  by_contra hclosed
  have hlt := (hg.bound c hc).lt (.inl (past_of_holds hr))
  exact (hg.shut r hlt (by simpa using hclosed)).2 _ hpres

def reapedWhileJoining : List Action :=
  opens 0 1 [] firstGeneration ++
    [Action.accept, .conn 1 .take, .conn 1 (.read (.request (soleRequest 1))), .conn 1 (.enter [Vector.replicate 16 1] none),
      .conn 0 .drop, .watch 0 0, .pass 300000000001, .conn 1 .join, .conn 1 (.ack true),
      .tick 300000000001 [Vector.replicate 16 1], .reap]

theorem attached_session_safe_joining : ∃ s, execWhile (step soleUser) patient (.initial 0) reapedWhileJoining = some s ∧
    s.table.sessions.lookup (s.table.heap 0).id = some 0 ∧ (s.table.heap 0).relay.closed = false := by
  refine (exists_some_of_decide (P := fun s => ∃ c ∈ s.conns, c.stage.holds 0 = true) ?_).imp fun s ⟨hs, c, hc, hh⟩ =>
    ⟨hs, attached_session_safe soleUser 0 reapedWhileJoining s (.of_execWhile hs) c hc 0 hh⟩
  decide +kernel

def slowHandler : List Action :=
  [.accept, .conn 0 .take, .conn 0 (.read (.request (soleRequest 1))), .conn 0 (.enter [] (some firstGeneration)),
    .pass 300000000001, .tick 300000000001 [Vector.replicate 16 1], .reap, .conn 0 (.setup none)]

theorem attached_session_reaped : (∀ a ∈ slowHandler, a ≠ .cancel) ∧
    ∃ s, exec (step soleUser) (.initial 0) slowHandler = some s ∧
      (∃ c ∈ s.conns, c.stage.holds 0 = true) ∧ s.table.sessions.lookup (s.table.heap 0).id = none := by
  refine ⟨by decide, exists_some_of_decide ?_⟩
  decide +kernel

end Hydracore.Parasite.Server
