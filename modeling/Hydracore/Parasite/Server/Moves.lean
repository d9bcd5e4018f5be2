import Hydracore.Parasite.Server.Accounting
import Hydracore.Parasite.Server.Handshake

namespace Hydracore.Parasite.Server

open Option

def Stage.free : Stage → Bool
  | .arrived | .reading | .entering _ | .refusing _ | .done => true
  | _ => false

def Stage.holds (r : ℕ) : Stage → Bool
  | .acking _ q _ | .attaching _ q _ | .releasing _ q _ _ => q = r
  | _ => false

def Stage.setsUp (r : ℕ) : Stage → Bool
  | .settingUp _ q => q = r
  | _ => false

inductive Moved (o : Options) (s : State) (h : ℕ) (c : Conn) : Conn → Table → List ℕ → Prop
  | free {c' : Conn} (dest : c'.stage.free = true) (held : ∀ r, c.stage.holds r = false)
      (set : ∀ r, c.stage.setsUp r = false) : Moved o s h c c' s.table []
  | entered {c' : Conn} {req : AuthRequest} {order : List SessionID} {g : Option Generation} {t : Table}
      {evicted : List ℕ} {e : Entered} (src : c.stage = .entering req) (perm : order.Perm s.table.sessions.keys)
      (result : s.table.enterSession o s.clock req order g = (t, evicted, e))
      (dest : (∃ err, e = .failed err ∧ c'.stage = .refusing .session) ∨
        (∃ r, e = .joining r ∧ c'.stage = .waiting req r) ∨ (∃ r, e = .created r ∧ c'.stage = .settingUp req r)) :
      Moved o s h c c' t evicted
  | joined {c' : Conn} {req : AuthRequest} {r : ℕ} (src : c.stage = .waiting req r)
      (done : (s.table.heap r).ready = true ∧ (s.table.heap r).setupErr = none)
      (present : s.table.sessions.lookup req.sessionID = some r) (dest : c'.stage = .acking req r false) :
      Moved o s h c c' (s.table.modify r fun s => { s with pendingAttaches := s.pendingAttaches + 1 }) []
  | setup {c' : Conn} {req : AuthRequest} {r : ℕ} {err : Option String} (src : c.stage = .settingUp req r)
      (dest : c'.stage = if err.isSome then .discarding r else .acking req r true) :
      Moved o s h c c' (s.table.finishSetup req r err) []
  | discarded {c' : Conn} {r : ℕ} (src : c.stage = .discarding r) (dest : c'.stage = .refusing .session) :
      Moved o s h c c' (s.table.closeRelay r) []
  | acked {c' : Conn} {req : AuthRequest} {r : ℕ} {created : Bool} (src : c.stage = .acking req r created)
      (dest : c'.stage = .attaching req r created ∨ c'.stage = .releasing req r created false) :
      Moved o s h c c' s.table []
  | attached {c' : Conn} {req : AuthRequest} {r : ℕ} {created : Bool} (src : c.stage = .attaching req r created)
      (dest : c'.stage = .releasing req r created true) : Moved o s h c c' (s.table.attachPath r h) []
  | released {c' : Conn} {req : AuthRequest} {r : ℕ} {created served : Bool}
      (src : c.stage = .releasing req r created served)
      (dest : c'.stage = .serving req r created ∨ c'.stage = .leaving req r ∨ c'.stage = .done) :
      Moved o s h c c' (s.table.releaseSessionAttach r) []
  | left {c' : Conn} {req : AuthRequest} {r : ℕ} (src : c.stage = .serving req r true)
      (dest : c'.stage = .leaving req r) : Moved o s h c c' s.table []
  | unattached {c' : Conn} {req : AuthRequest} {r : ℕ} (src : c.stage = .leaving req r)
      (present : s.table.sessions.lookup req.sessionID = some r) (unheld : (s.table.heap r).pendingAttaches = 0)
      (dest : c'.stage = .closing r) :
      Moved o s h c c' (s.table.unregister req.sessionID (s.table.heap r).user) []
  | closed {c' : Conn} {r : ℕ} (src : c.stage = .closing r) (dest : c'.stage = .done) :
      Moved o s h c c' (s.table.closeRelay r) []
  | dropped {c' : Conn} (dest : c'.stage = c.stage) : Moved o s h c c' s.table []

theorem joinSession_failed {t t' : Table} {req : AuthRequest} {r : ℕ} {err : SessionError}
    (h : t.joinSession req r = (t', some err)) : t' = t := by
  unfold Table.joinSession at h
  split_ifs at h
  · exact (Prod.mk.inj h).1.symm
  · split at h
    · exact (Prod.mk.inj h).1.symm
    · simp at h

theorem afterAttach_stage (c : Conn) (req : AuthRequest) (r : ℕ) (created : Bool) :
    (c.afterAttach req r created).stage = .leaving req r ∨ (c.afterAttach req r created).stage = .done := by
  cases created <;> simp [Conn.afterAttach, Conn.finish]

theorem move_cases {o : Options} {s : State} {h : ℕ} {c c' : Conn} {a : ConnAction} {t : Table}
    {evicted : List ℕ} (hm : move o s h c c.stage a = some (c', t, evicted)) : Moved o s h c c' t evicted := by
  -- a step between stages that refer to no session
  have hfree {d : Conn} {st : Stage} (hs : c.stage = st) (hd : d.stage.free = true)
      (hheld : ∀ r, st.holds r = false) (hset : ∀ r, st.setsUp r = false)
      (he : some (d, s.table, ([] : List ℕ)) = some (c', t, evicted)) : Moved o s h c c' t evicted := by
    cases he
    subst st
    exact .free hd hheld hset
  unfold move at hm
  split at hm
  case h_1 hs =>
    split_ifs at hm
    all_goals exact hfree hs rfl (fun _ => rfl) (fun _ => rfl) hm
  case h_2 hs => exact hfree hs rfl (fun _ => rfl) (fun _ => rfl) hm
  case h_3 hs => exact hfree hs rfl (fun _ => rfl) (fun _ => rfl) hm
  case h_4 hs =>
    split at hm
    all_goals exact hfree hs rfl (fun _ => rfl) (fun _ => rfl) hm
  case h_5 req order g hs =>
    split_ifs at hm with hperm
    split at hm
    all_goals
      rename_i hresult
      cases hm
      refine .entered hs hperm hresult ?_
    · exact .inl ⟨_, rfl, rfl⟩
    · exact .inr (.inl ⟨_, rfl, rfl⟩)
    · exact .inr (.inr ⟨_, rfl, rfl⟩)
  case h_6 req r hs =>
    split_ifs at hm with hready
    split at hm
    · rename_i hresult
      rw [joinSession_failed hresult] at hm
      exact hfree hs rfl (fun _ => rfl) (fun _ => rfl) hm
    · rename_i hresult
      obtain ⟨hl, herr, rfl⟩ := Table.joinSession_joined hresult
      cases hm
      exact .joined hs ⟨hready, herr⟩ hl rfl
  case h_7 hs =>
    split_ifs at hm
    exact hfree hs rfl (fun _ => rfl) (fun _ => rfl) hm
  case h_17 req r hs =>
    split at hm
    · exact hfree hs rfl (fun _ => rfl) (fun _ => rfl) hm
    · rename_i hresult
      obtain ⟨hl, hpend, -, rfl⟩ := Table.deleteUnattached_some hresult
      cases hm
      exact .unattached hs hl hpend rfl
  case h_16 req r created hs =>
    split_ifs at hm
    cases created with
    | false => exact hfree hs rfl (fun _ => rfl) (fun _ => rfl) hm
    | true =>
      cases hm
      exact .left hs rfl
  case h_10 hs => exact hfree hs rfl (fun _ => rfl) (fun _ => rfl) hm
  case h_20 => simp at hm
  all_goals
    rename_i hs
    cases hm
  · exact .setup hs rfl
  · exact .discarded hs rfl
  · exact .acked hs (.inl rfl)
  · exact .acked hs (.inr rfl)
  · exact .attached hs rfl
  · exact .released hs (.inl rfl)
  · exact .released hs (.inr (afterAttach_stage c _ _ _))
  · exact .closed hs rfl
  · exact .dropped rfl

inductive Stepped (o : Options) (s : State) : Action → State → Prop
  | accepted {c : Conn} (fresh : c.stage = .arrived) (silent : c.ack = none) :
      Stepped o s .accept { s with conns := s.conns ++ [c] }
  | moved {h : ℕ} {a : ConnAction} {c c' : Conn} {t : Table} {evicted : List ℕ} (get : s.conns[h]? = some c)
      (by_ : Moved o s h c c' t evicted) :
      Stepped o s (.conn h a) { s with conns := s.conns.set h c', table := t, closers := s.closers ++ evicted }
  | watched {h r : ℕ} (path : h ∈ (s.table.heap r).relay.paths) :
      Stepped o s (.watch h r) { s with table := s.table.removePath r h }
  | evictedClosed {i r : ℕ} (get : s.closers[i]? = some r) :
      Stepped o s (.closeEvicted i) { s with table := s.table.closeRelay r, closers := s.closers.eraseIdx i }
  | ticked {now : ℤ} {order : List SessionID} (idle : s.reaper = .idle) (late : now ≤ s.clock)
      (perm : order.Perm s.table.sessions.keys) :
      Stepped o s (.tick now order) { s with
        reaper := .deleting (now - o.sessionIdleTimeout) (s.table.staleSessions (now - o.sessionIdleTimeout) order) }
  | rested {cutoff : ℤ} (src : s.reaper = .deleting cutoff []) : Stepped o s .reap { s with reaper := .idle }
  | spared {cutoff : ℤ} {r : ℕ} {stale : List ℕ} (src : s.reaper = .deleting cutoff (r :: stale)) :
      Stepped o s .reap { s with reaper := .deleting cutoff stale }
  | reaped {cutoff : ℤ} {r : ℕ} {stale : List ℕ} (src : s.reaper = .deleting cutoff (r :: stale))
      (result : s.table.deleteUnattached (s.table.heap r).id r =
        some (s.table.unregister (s.table.heap r).id (s.table.heap r).user)) : Stepped o s .reap { s with
        table := s.table.unregister (s.table.heap r).id (s.table.heap r).user, reaper := .closing r cutoff stale }
  | reapClosed {cutoff : ℤ} {r : ℕ} {stale : List ℕ} (src : s.reaper = .closing r cutoff stale) :
      Stepped o s .reapClose { s with table := s.table.closeRelay r, reaper := .deleting cutoff stale }
  | cancelled (src : s.shutdown = .running) : Stepped o s .cancel { s with shutdown := .cancelled }
  | cleared {order : List SessionID} (src : s.shutdown = .cancelled) : Stepped o s (.clear order) { s with
      table := s.table.clear, shutdown := .closing (order.filterMap (fun id => s.table.sessions.lookup id)) }
  | shutdownClosed {r : ℕ} {rest : List ℕ} (src : s.shutdown = .closing (r :: rest)) :
      Stepped o s .shutdownClose { s with table := s.table.closeRelay r, shutdown := .closing rest }
  | passed {d : ℕ} : Stepped o s (.pass d) { s with clock := s.clock + d }

theorem step_cases {o : Options} {s s' : State} {a : Action} (hs : step o s a = some s') : Stepped o s a s' := by
  cases a with simp only [step] at hs
  | accept =>
    cases hs
    exact .accepted rfl rfl
  | conn h a =>
    obtain ⟨c, hc, hs⟩ := bind_eq_some_iff.mp hs
    obtain ⟨⟨c', t, evicted⟩, hm, rfl⟩ := map_eq_some_iff.mp hs
    exact .moved hc (move_cases hm)
  | watch h r =>
    split_ifs at hs with hw
    cases hs
    exact .watched hw.2
  | closeEvicted i =>
    obtain ⟨r, hr, rfl⟩ := map_eq_some_iff.mp hs
    exact .evictedClosed hr
  | tick now order =>
    split_ifs at hs with ht
    cases hs
    exact .ticked ht.1 ht.2.1 ht.2.2
  | reap =>
    split at hs
    · rename_i hr
      cases hs
      exact .rested hr
    · rename_i hr
      split at hs
      · cases hs
        exact .spared hr
      · rename_i hd
        obtain ⟨-, -, -, rfl⟩ := Table.deleteUnattached_some hd
        cases hs
        exact .reaped hr hd
    · simp at hs
  | reapClose =>
    split at hs
    · rename_i hr
      cases hs
      exact .reapClosed hr
    · simp at hs
  | cancel =>
    split_ifs at hs with hr
    cases hs
    exact .cancelled hr
  | clear order =>
    split_ifs at hs with hr
    cases hs
    exact .cleared hr.1
  | shutdownClose =>
    split at hs
    · rename_i hr
      cases hs
      exact .shutdownClosed hr
    · simp at hs
  | pass d =>
    cases hs
    exact .passed

end Hydracore.Parasite.Server
