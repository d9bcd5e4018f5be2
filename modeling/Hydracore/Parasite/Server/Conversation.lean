import Hydracore.Parasite.Server.Setup

namespace Hydracore.Parasite.Server

open Systems Table Option

variable {o : Options} {s s' : State} {h : ℕ} {c c' : Conn} {t : Table} {evicted : List ℕ}

def Session.failed (s : Session) : Bool := s.ready && s.setupErr.isSome

def Issued (t : Table) (id : SessionID) (g : UInt64) : Prop :=
  ∃ r < t.fresh, (t.heap r).id = id ∧ (t.heap r).outcome = (true, none) ∧ (t.heap r).generation = g

def Sole (t : Table) (id : SessionID) : Prop :=
  ∀ q < t.fresh, ∀ r < t.fresh, (t.heap q).id = id → (t.heap r).id = id →
    (t.heap q).failed = false → (t.heap r).failed = false → q = r

theorem Session.failed_of_outcome {x : Session} (hx : x.outcome = (true, none)) : x.failed = false := by
  obtain ⟨-, herr⟩ := Prod.mk.inj hx
  simp [Session.failed, herr]

variable {id : SessionID}

theorem Issued.unique {t : Table} {g g' : UInt64} (hs : Sole t id) (h : Issued t id g)
    (h' : Issued t id g') : g = g' := by
  obtain ⟨q, hq, hid, hout, rfl⟩ := h
  obtain ⟨r, hr, hid', hout', rfl⟩ := h'
  rw [hs q hq r hr hid hid' (Session.failed_of_outcome hout) (Session.failed_of_outcome hout')]

variable {a : Action}

theorem Stepped.issued {g : UInt64} (hg : Orderly o s) (hs : Stepped o s a s')
    (h : Issued s.table id g) : Issued s'.table id g := by
  obtain ⟨r, hr, hid, hout, hgen⟩ := h
  have he := hs.extends hg.accounted
  refine ⟨r, hr.trans_le he.fresh, (he.id_eq hr).trans hid, ?_, (he.generation_eq hr).trans hgen⟩
  exact (hs.outcome hg hr (Prod.mk.inj hout).1).trans hout

theorem Stepped.failed {r : ℕ} (hg : Orderly o s) (hs : Stepped o s a s') (hr : r < s.table.fresh)
    (hf : (s.table.heap r).failed = true) : (s'.table.heap r).failed = true := by
  have hready := (Bool.and_eq_true_iff.mp hf).1
  obtain ⟨hready', herr'⟩ := Prod.mk.inj (hs.outcome hg hr hready)
  rw [Session.failed, hready', herr']
  exact hf

theorem Stepped.fresh_eq (hs : Stepped o s a s') (ha : ∀ h b, a ≠ .conn h b) : s'.table.fresh = s.table.fresh := by
  cases hs with
  | moved => exact absurd rfl (ha _ _)
  | _ => rfl

theorem created_by_enter {r : ℕ} (hg : Accounted o s.table) (hs : step o s a = some s')
    (hge : s.table.fresh ≤ r) (hlt : r < s'.table.fresh) :
    ∃ h order g c req, a = .conn h (.enter order (some g)) ∧ s.conns[h]? = some c ∧ c.stage = .entering req ∧
      s.table.sessions.lookup req.sessionID = none ∧ r = s.table.fresh ∧ (s'.table.heap r).id = req.sessionID := by
  by_cases ha : ∃ h b, a = .conn h b
  · obtain ⟨h, b, rfl⟩ := ha
    obtain ⟨c, hc, ⟨c', t, evicted⟩, hm, rfl⟩ := bind_map_eq_some hs
    obtain ⟨req, k, hst, hst', hk⟩ := (move_cases hm).spawned hg hge hlt
    rw [hst] at hm
    cases b with
    | enter order g =>
      simp only [move] at hm
      split_ifs at hm
      split at hm
      all_goals
        rename_i hresult
        cases hm
      · cases hst'
      · cases hst'
      · rcases enterSession_cases hg hresult with ⟨-, -, ⟨_, he⟩ | ⟨_, he, -⟩⟩ | ⟨-, -, -, _, he⟩ |
          ⟨t₁, g, hnone, -, -, -, -, rfl, -, he⟩
        · cases he
        · cases he
        · cases he
        · obtain ⟨-, rfl⟩ := Stage.settingUp.inj hst'
          exact ⟨h, order, g, c, req, rfl, hc, hst, hnone, Entered.created.inj he, by rw [hk]; rfl⟩
    | drop =>
      cases hm
      exact absurd hlt (Nat.not_lt.mpr hge)
    | _ => simp [move] at hm
  · rw [(step_cases hs).fresh_eq (fun h b hb => ha ⟨h, b, hb⟩)] at hlt
    exact absurd hlt (Nat.not_lt.mpr hge)

theorem Stepped.drawn (hg : Accounted o s.table) (hs : Stepped o s a s')
    (h : ∀ r < s.table.fresh, (s.table.heap r).generation ≠ 0) :
    ∀ r < s'.table.fresh, (s'.table.heap r).generation ≠ 0 := by
  intro r hr
  rcases Nat.lt_or_ge r s.table.fresh with hlt | hge
  · rw [(hs.extends hg).generation_eq hlt]
    exact h r hlt
  · by_cases ha : ∃ h b, a = .conn h b
    · cases hs with
      | moved get by_ =>
        obtain ⟨req, k, -, -, hk⟩ := by_.spawned hg hge hr
        rw [hk]
        exact k.2
      | _ => simp at ha
    · rw [hs.fresh_eq (fun h b hb => ha ⟨h, b, hb⟩)] at hr
      exact absurd hr (Nat.not_lt.mpr hge)

theorem Sole.step (hg : Orderly o s) (hs : step o s a = some s')
    (hnew : ∀ h order g c req, a = .conn h (.enter order (some g)) → s.conns[h]? = some c →
      c.stage = .entering req → req.sessionID = id → s.table.sessions.lookup id = none →
      ∀ r < s.table.fresh, (s.table.heap r).id = id → (s.table.heap r).failed = true)
    (h : Sole s.table id) : Sole s'.table id := by
  have hstep := step_cases hs
  have he := hstep.extends hg.accounted
  have hkept {r : ℕ} (hr : r < s.table.fresh) (hf : (s'.table.heap r).failed = false) :
      (s.table.heap r).failed = false := by
    by_contra hfail
    rw [hstep.failed hg hr (by simpa using hfail)] at hf
    cases hf
  -- next to a newly created session, every older one has failed
  have hfirst {q r : ℕ} (hq : q < s'.table.fresh) (hr : r < s'.table.fresh) (hge : s.table.fresh ≤ r)
      (hidq : (s'.table.heap q).id = id) (hidr : (s'.table.heap r).id = id)
      (hf : (s'.table.heap q).failed = false) : q = r := by
    obtain ⟨h, order, g, c, req, ha, hc, hst, hnone, hr', hid⟩ := created_by_enter hg.accounted hs hge hr
    rcases Nat.lt_or_ge q s.table.fresh with hlt | hge'
    · have hreq : req.sessionID = id := hid.symm.trans hidr
      have := hnew h order g c req ha hc hst hreq (hreq ▸ hnone) q hlt ((he.id_eq hlt).symm.trans hidq)
      rw [hkept hlt hf] at this
      cases this
    · obtain ⟨-, -, -, -, -, -, -, -, -, hq', -⟩ := created_by_enter hg.accounted hs hge' hq
      exact hq'.trans hr'.symm
  intro q hq r hr hidq hidr hfq hfr
  rcases Nat.lt_or_ge r s.table.fresh with hr' | hge
  · rcases Nat.lt_or_ge q s.table.fresh with hq' | hge
    · exact h q hq' r hr' ((he.id_eq hq').symm.trans hidq) ((he.id_eq hr').symm.trans hidr) (hkept hq' hfq)
        (hkept hr' hfr)
    · exact (hfirst hr hq hge hidr hidq hfr).symm
  · exact hfirst hq hr hge hidq hidr hfq

def Stage.request : Stage → Option AuthRequest
  | .entering req | .waiting req _ | .settingUp req _ | .acking req _ _ | .attaching req _ _
  | .releasing req _ _ _ | .serving req _ _ | .leaving req _ => some req
  | _ => none

inductive Spoke (s : State) (c : Conn) : ConnAction → Conn → Prop
  | quiet {a : ConnAction} {c' : Conn} (same : c'.stage.request = none ∨ c'.stage.request = c.stage.request)
      (ack : c'.ack = c.ack) : Spoke s c a c'
  | heard {req : AuthRequest} {c' : Conn} (request : c'.stage.request = some req) (ack : c'.ack = c.ack) :
      Spoke s c (.read (.request req)) c'
  | refused {a : ConnAction} {c' : Conn} (code : UInt8) (request : c'.stage.request = none)
      (ack : c'.ack = some (encodeAuthAck false 0 code)) : Spoke s c a c'
  | accepted {a : ConnAction} {c' : Conn} {req : AuthRequest} {r : ℕ} {created : Bool} (code : UInt8)
      (src : c.stage = .acking req r created) (dest : c'.stage = .attaching req r created)
      (ack : c'.ack = some (encodeAuthAck true (s.table.heap r).generation code)) : Spoke s c a c'

theorem afterAttach_quiet (c : Conn) (req : AuthRequest) (r : ℕ) (created : Bool) :
    ((c.afterAttach req r created).stage.request = none ∨ (c.afterAttach req r created).stage.request = some req) ∧
      (c.afterAttach req r created).ack = c.ack := by
  cases created <;> simp [Conn.afterAttach, Conn.finish, Stage.request]

theorem move_spoke {a : ConnAction} (hm : move o s h c c.stage a = some (c', t, evicted)) : Spoke s c a c' := by
  have hquiet {a : ConnAction} {d : Conn} {t' : Table} {gone : List ℕ}
      (he : some (d, t', gone) = some (c', t, evicted))
      (hr : d.stage.request = none ∨ d.stage.request = c.stage.request) (hack : d.ack = c.ack) :
      Spoke s c a c' := by
    cases he
    exact .quiet hr hack
  unfold move at hm
  split at hm
  case h_1 =>
    split_ifs at hm
    all_goals exact hquiet hm (.inl rfl) rfl
  case h_4 req hs =>
    split at hm
    · exact hquiet hm (.inl rfl) rfl
    · cases hm
      exact .heard rfl rfl
  case h_5 req order g hs =>
    split_ifs at hm
    split at hm
    · exact hquiet hm (.inl rfl) rfl
    · exact hquiet hm (.inr (by rw [hs]; rfl)) rfl
    · exact hquiet hm (.inr (by rw [hs]; rfl)) rfl
  case h_6 req r hs =>
    split_ifs at hm
    split at hm
    · exact hquiet hm (.inl rfl) rfl
    · exact hquiet hm (.inr (by rw [hs]; rfl)) rfl
  case h_7 =>
    split_ifs at hm
    exact hquiet hm (.inl rfl) rfl
  case h_8 req r err hs =>
    refine hquiet hm ?_ rfl
    rw [hs]
    cases err <;> simp [Stage.request]
  case h_10 reason hs =>
    cases hm
    exact .refused reason.code rfl rfl
  case h_11 req r created hs =>
    cases hm
    exact .accepted _ hs rfl rfl
  case h_15 req r created hs =>
    obtain ⟨hr, hack⟩ := afterAttach_quiet c req r created
    exact hquiet hm (by rw [hs]; exact hr) hack
  case h_16 req r created hs =>
    split_ifs at hm
    obtain ⟨hr, hack⟩ := afterAttach_quiet c req r created
    exact hquiet hm (by rw [hs]; exact hr) hack
  case h_17 =>
    split at hm
    all_goals exact hquiet hm (.inl rfl) rfl
  case h_20 => simp at hm
  case h_2 | h_3 | h_9 | h_18 => exact hquiet hm (.inl rfl) rfl
  case h_12 hs | h_13 hs | h_14 hs => exact hquiet hm (.inr (by rw [hs]; rfl)) rfl
  case h_19 => exact hquiet hm (.inr rfl) rfl

structure Answered (t : Table) (id : SessionID) (c : Conn) : Prop where
  request : ∀ req, c.stage.request = some req → req.sessionID = id
  ack : ∀ frame, c.ack = some frame → (∃ code, frame = encodeAuthAck false 0 code) ∨
    ∃ g code, Issued t id g ∧ frame = encodeAuthAck true g code

theorem Stepped.conns_get {a : Action} {k : ℕ} (hs : Stepped o s a s') (hk : s.conns[k]? = some c) :
    s'.conns[k]? = some c ∨ ∃ b, a = .conn k b := by
  cases hs with
  | accepted =>
    left
    rw [List.getElem?_append_left (getElem?_lt hk)]
    exact hk
  | @moved h b =>
    by_cases hh : h = k
    · exact .inr ⟨b, by rw [hh]⟩
    · exact .inl ((List.getElem?_set_ne hh).trans hk)
  | _ => exact .inl hk

theorem Answered.mono {a : Action} {id : SessionID} (hg : Orderly o s) (hs : Stepped o s a s')
    (h : Answered s.table id c) : Answered s'.table id c where
  request := h.request
  ack := by
    intro frame hf
    rcases h.ack frame hf with hrefused | ⟨g, code, hi, hframe⟩
    · exact .inl hrefused
    · exact .inr ⟨g, code, hs.issued hg hi, hframe⟩

theorem Answered.step {a : Action} {id : SessionID} {k : ℕ} (hg : Orderly o s) (hs : step o s a = some s')
    (hread : ∀ req, a = .conn k (.read (.request req)) → req.sessionID = id) (hk : s.conns[k]? = some c)
    (h : Answered s.table id c) : ∃ c', s'.conns[k]? = some c' ∧ Answered s'.table id c' := by
  have hstep := step_cases hs
  rcases hstep.conns_get hk with hk' | ⟨b, rfl⟩
  · exact ⟨c, hk', h.mono hg hstep⟩
  · have hold := h.mono hg hstep
    obtain ⟨d, hd, hs⟩ := bind_eq_some_iff.mp hs
    cases hk.symm.trans hd
    obtain ⟨⟨c', t, evicted⟩, hm, rfl⟩ := map_eq_some_iff.mp hs
    have hlen := getElem?_lt hk
    refine ⟨c', List.getElem?_set_self hlen, ?_⟩
    cases move_spoke hm with
    | quiet same ack =>
      refine ⟨fun req hreq => ?_, fun frame hf => hold.ack frame (ack ▸ hf)⟩
      rcases same with hnone | hsame
      · rw [hnone] at hreq
        cases hreq
      · exact h.request req (hsame ▸ hreq)
    | heard request ack =>
      refine ⟨fun req hreq => ?_, fun frame hf => hold.ack frame (ack ▸ hf)⟩
      cases request.symm.trans hreq
      exact hread _ rfl
    | refused code request ack =>
      refine ⟨fun req hreq => ?_, fun frame hf => .inl ⟨code, ?_⟩⟩
      · rw [request] at hreq
        cases hreq
      · exact (some.inj (ack.symm.trans hf)).symm
    | @accepted _ _ req r created code src dest ack =>
      have hid := h.request req (by rw [src]; rfl)
      have hmem := List.mem_of_getElem? hk
      obtain ⟨hlt, hsid, -⟩ := hg.bound c hmem req r (by rw [src]; rfl)
      have hissued : Issued s.table id (s.table.heap r).generation :=
        ⟨r, hlt, hsid.trans hid, hg.readied c hmem r (by simp [src, Stage.past]), rfl⟩
      refine ⟨fun req' hreq => ?_, fun frame hf => .inr ⟨_, code, hstep.issued hg hissued, ?_⟩⟩
      · rw [dest] at hreq
        cases hreq
        exact hid
      · exact (some.inj (ack.symm.trans hf)).symm

end Hydracore.Parasite.Server
