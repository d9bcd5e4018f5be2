import Hydracore.Parasite.Server.Conversation

/-!
The dials of one `Client` against one `Server`. `RebindNetwork`, `Close` and the
network all act on a dial in the same two ways: its exchange fails, or its
connection goes away.
-/

namespace Hydracore.Parasite.Client

open Formats Systems Server Option

structure Options where
  sessionID : SessionID
  conv : UInt32
  workers : UInt16
  user : Bytes
  password : Bytes

def Options.request (c : Options) (workerID : UInt16) : AuthRequest :=
  ⟨authProtocolVersion, c.sessionID, c.conv, workerID, c.workers, 1, 1, c.user, c.password⟩

inductive Progress
  | exchanging
  | received (generation : UInt64)
  | unpinned (generation : UInt64)
  | swapped (generation : UInt64)
  | comparing (generation expected : UInt64)
  | admitted
  | reset
  | failed (err : Option AckError)
deriving DecidableEq

structure Dial where
  conn : ℕ
  workerID : UInt16
  progress : Progress

structure World where
  server : Server.State
  generation : UInt64
  dials : List Dial

def World.initial (now : ℤ) : World := ⟨.initial now, 0, []⟩

inductive DialAction
  | receive
  | giveUp
  | load
  | swap
  | reload
  | compare
deriving DecidableEq

inductive Event
  | server (a : Server.Action)
  | dial (workerID : UInt16)
  | proceed (i : ℕ) (a : DialAction)

def exchangeAuth (w : World) (d : Dial) : Option Progress :=
  (w.server.conns[d.conn]?).bind fun c => c.ack.map fun frame =>
    match decodeAuthAck frame with
    | .ok generation => .received generation
    | .error err => .failed (some err)

def proceed (w : World) (d : Dial) : Progress → DialAction → Option (Progress × UInt64)
  | .exchanging, .receive => (exchangeAuth w d).map fun p => (p, w.generation)
  | .exchanging, .giveUp => some (.failed none, w.generation)
  | .received g, .load =>
    some (if w.generation = 0 then .unpinned g else .comparing g w.generation, w.generation)
  | .unpinned g, .swap => some (.swapped g, if w.generation = 0 then g else w.generation)
  | .swapped g, .reload => some (.comparing g w.generation, w.generation)
  | .comparing g expected, .compare => some (if g ≠ expected then .reset else .admitted, w.generation)
  | _, _ => none

def faithful (c : Options) (w : World) : Server.Action → Bool
  | .conn h (.read (.request req)) => w.dials.all fun d => d.conn ≠ h ∨ req = c.request d.workerID
  | _ => true

def step (c : Options) (o : Server.Options) (w : World) : Event → Option World
  | .server a =>
    if faithful c w a then (Server.step o w.server a).map fun s => { w with server := s } else none
  | .dial workerID =>
    (Server.step o w.server .accept).map fun s =>
      { w with server := s, dials := w.dials ++ [⟨w.server.conns.length, workerID, .exchanging⟩] }
  | .proceed i a =>
    (w.dials[i]?).bind fun d => (proceed w d d.progress a).map fun (p, g) =>
      { w with generation := g, dials := w.dials.set i { d with progress := p } }

variable {c : Options} {o : Server.Options} {w w' : World} {e : Event}

def unreplaced (c : Options) (w : World) : Event → Bool
  | .server (.conn h (.enter _ (some _))) =>
    match (w.server.conns[h]?).map Conn.stage with
    | some (.entering req) =>
      req.sessionID ≠ c.sessionID || (w.server.table.sessions.lookup c.sessionID).isSome ||
        (List.range w.server.table.fresh).all fun r =>
          (w.server.table.heap r).id ≠ c.sessionID || (w.server.table.heap r).failed
    | _ => true
  | _ => true

def Progress.agrees (issued : UInt64 → Prop) (pinned : UInt64) : Progress → Prop
  | .received g | .unpinned g => issued g ∧ g ≠ 0
  | .swapped g => issued g ∧ pinned ≠ 0
  | .comparing g expected => issued g ∧ issued expected
  | .reset => False
  | .exchanging | .admitted | .failed _ => True

structure Agreed (c : Options) (o : Server.Options) (w : World) : Prop where
  orderly : Orderly o w.server
  sole : Sole w.server.table c.sessionID
  drawn : ∀ r < w.server.table.fresh, (w.server.table.heap r).generation ≠ 0
  pinned : w.generation ≠ 0 → Issued w.server.table c.sessionID w.generation
  answered : ∀ d ∈ w.dials, ∃ k, w.server.conns[d.conn]? = some k ∧ Answered w.server.table c.sessionID k
  dials : ∀ d ∈ w.dials, d.progress.agrees (Issued w.server.table c.sessionID) w.generation

variable {p : Progress}

theorem Progress.agrees.mono {issued issued' : UInt64 → Prop} {g g' : UInt64}
    (h : p.agrees issued g) (hi : ∀ x, issued x → issued' x) (hg : g ≠ 0 → g' ≠ 0) : p.agrees issued' g' := by
  cases p with
  | received | unpinned => exact ⟨hi _ h.1, h.2⟩
  | swapped => exact ⟨hi _ h.1, hg h.2⟩
  | comparing => exact ⟨hi _ h.1, hi _ h.2⟩
  | reset => exact h
  | exchanging | admitted | failed => trivial

theorem agreed_initial (c : Options) (o : Server.Options) (now : ℤ) : Agreed c o (.initial now) where
  orderly := orderly_initial o now
  sole := by intro q hq; cases hq
  drawn := by intro r hr; cases hr
  pinned := by intro h; exact absurd rfl h
  answered := by intro d hd; cases hd
  dials := by intro d hd; cases hd

theorem unreplaced_creation {a : Server.Action} (hc : unreplaced c w (.server a) = true) :
    ∀ h order g k req, a = .conn h (.enter order (some g)) → w.server.conns[h]? = some k →
      k.stage = .entering req → req.sessionID = c.sessionID →
      w.server.table.sessions.lookup c.sessionID = none → ∀ r < w.server.table.fresh,
        (w.server.table.heap r).id = c.sessionID → (w.server.table.heap r).failed = true := by
  rintro h order g k req rfl hk hst hid hnone r hr hrid
  rw [unreplaced, hk, map_some, hst] at hc
  simp only [hid, hnone, ne_eq, not_true_eq_false, decide_false, isSome_none, Bool.false_or,
    List.all_eq_true, List.mem_range] at hc
  simpa [hrid] using hc r hr

section

variable (h : Agreed c o w)
include h

theorem Agreed.server_step {a : Server.Action} {s : State} (hc : unreplaced c w (.server a) = true)
    (hf : faithful c w a = true) (hs : Server.step o w.server a = some s) : Agreed c o { w with server := s } where
  orderly := (step_cases hs).orderly h.orderly
  sole := h.sole.step h.orderly hs (unreplaced_creation hc)
  drawn := (step_cases hs).drawn h.orderly.accounted h.drawn
  pinned := fun hne => (step_cases hs).issued h.orderly (h.pinned hne)
  answered := by
    intro d hd
    obtain ⟨k, hk, hans⟩ := h.answered d hd
    refine hans.step h.orderly hs ?_ hk
    rintro req rfl
    have := List.all_eq_true.mp hf d hd
    simp only [ne_eq, not_true_eq_false, false_or, decide_eq_true_eq] at this
    rw [this]
    rfl
  dials := fun d hd => (h.dials d hd).mono (fun _ hi => (step_cases hs).issued h.orderly hi) id

theorem Agreed.decode {k : Conn} (ha : Answered w.server.table c.sessionID k) {frame : Bytes}
    (hf : k.ack = some frame) : (∃ err, decodeAuthAck frame = .error (.rejected err)) ∨
      ∃ g, g ≠ 0 ∧ Issued w.server.table c.sessionID g ∧ decodeAuthAck frame = .ok g := by
  rcases ha.ack frame hf with ⟨code, rfl⟩ | ⟨g, code, hi, rfl⟩
  · exact .inl ⟨_, decode_refused code 0⟩
  · obtain ⟨r, hr, -, -, hgen⟩ := id hi
    have hne : g ≠ 0 := hgen ▸ h.drawn r hr
    exact .inr ⟨g, hne, hi, by rw [decode_accepted, if_neg hne]⟩

theorem Agreed.exchange {d : Dial} (hd : d ∈ w.dials)
    (hx : exchangeAuth w d = some p) : p.agrees (Issued w.server.table c.sessionID) w.generation := by
  obtain ⟨k, hk, hans⟩ := h.answered d hd
  obtain ⟨k', hk', hx⟩ := bind_eq_some_iff.mp hx
  cases hk'.symm.trans hk
  obtain ⟨frame, hf, rfl⟩ := map_eq_some_iff.mp hx
  rcases h.decode hans hf with ⟨err, hdec⟩ | ⟨g, hne, hi, hdec⟩
  · rw [hdec]
    trivial
  · rw [hdec]
    exact ⟨hi, hne⟩

theorem Agreed.proceed {d : Dial} (hd : d ∈ w.dials) {a : DialAction} {g : UInt64}
    (hp : proceed w d d.progress a = some (p, g)) : p.agrees (Issued w.server.table c.sessionID) g ∧
      (g = w.generation ∨ (w.generation = 0 ∧ Issued w.server.table c.sessionID g)) := by
  have hold := h.dials d hd
  unfold Client.proceed at hp
  split at hp <;> rename_i hstage
  case h_7 => cases hp
  · obtain ⟨q, hx, hq⟩ := map_eq_some_iff.mp hp
    cases hq
    exact ⟨h.exchange hd hx, .inl rfl⟩
  all_goals
    rw [hstage] at hold
    cases hp
  · exact ⟨trivial, .inl rfl⟩
  · refine ⟨?_, .inl rfl⟩
    split_ifs with hzero
    · exact hold
    · exact ⟨hold.1, h.pinned hzero⟩
  · split_ifs with hzero
    · exact ⟨hold, .inr ⟨hzero, hold.1⟩⟩
    · exact ⟨⟨hold.1, hzero⟩, .inl rfl⟩
  · exact ⟨⟨hold.1, h.pinned hold.2⟩, .inl rfl⟩
  · refine ⟨?_, .inl rfl⟩
    rw [if_neg (not_not.mpr (hold.1.unique h.sole hold.2))]
    trivial

theorem Agreed.step (hc : unreplaced c w e = true) (hs : step c o w e = some w') : Agreed c o w' := by
  cases e with
  | server a =>
    simp only [Client.step] at hs
    split_ifs at hs with hf
    obtain ⟨s, hserver, rfl⟩ := map_eq_some_iff.mp hs
    exact h.server_step hc hf hserver
  | dial workerID =>
    simp only [Client.step] at hs
    obtain ⟨s, haccept, rfl⟩ := map_eq_some_iff.mp hs
    have hserver := h.server_step rfl rfl haccept
    cases haccept
    refine ⟨hserver.orderly, hserver.sole, hserver.drawn, hserver.pinned, fun d hd => ?_, fun d hd => ?_⟩
    · rcases mem_concat_cases hd with hd | rfl
      · exact hserver.answered d hd
      · refine ⟨_, List.getElem?_concat_length, ?_, ?_⟩
        · intro req hreq
          cases hreq
        · intro frame hf
          cases hf
    · rcases mem_concat_cases hd with hd | rfl
      · exact hserver.dials d hd
      · trivial
  | proceed i a =>
    obtain ⟨d, hd, ⟨p, g⟩, hp, rfl⟩ := bind_map_eq_some hs
    have hmem := List.mem_of_getElem? hd
    obtain ⟨hagrees, hpin⟩ := h.proceed hmem hp
    have hmono : w.generation ≠ 0 → g ≠ 0 := by
      rcases hpin with rfl | ⟨hzero, -⟩
      · exact id
      · exact fun hne => absurd hzero hne
    refine ⟨h.orderly, h.sole, h.drawn, fun hne => ?_, forall_mem_set h.answered (h.answered d hmem), ?_⟩
    · rcases hpin with rfl | ⟨-, hi⟩
      · exact h.pinned hne
      · exact hi
    · exact forall_mem_set (fun d' hd' => (h.dials d' hd').mono (fun _ => id) hmono) hagrees

end

theorem accepted_dial_admitted (c : Options) (o : Server.Options) (now : ℤ) (es : List Event) (w : World)
    (h : Run (step c o) (unreplaced c · ·) (.initial now) es w) : ∀ d ∈ w.dials,
      (∀ k g code, w.server.conns[d.conn]? = some k → k.ack = some (encodeAuthAck true g code) →
        exchangeAuth w d = some (.received g)) ∧
      d.progress ≠ .reset ∧ ∀ g expected, d.progress = .comparing g expected → g = expected := by
  intro d hd
  have ha : Agreed c o w := h.invariant .step (agreed_initial c o now)
  have hdial := ha.dials d hd
  refine ⟨?_, ?_, ?_⟩
  · intro k g code hk hack
    obtain ⟨k', hk', hans⟩ := ha.answered d hd
    cases hk'.symm.trans hk
    rcases ha.decode hans hack with ⟨err, hdec⟩ | ⟨g', hne, -, hdec⟩
    · rw [decode_accepted] at hdec
      split_ifs at hdec
      cases hdec
    · rw [decode_accepted] at hdec
      split_ifs at hdec with hzero
      simp [exchangeAuth, hk, hack, decode_accepted, hzero]
  · intro hreset
    rw [hreset] at hdial
    exact hdial
  · intro g expected hcmp
    rw [hcmp] at hdial
    exact hdial.1.unique ha.sole hdial.2

def soleClient : Options := ⟨Vector.replicate 16 1, 1, 4, [117], [112]⟩

def served (h : ℕ) (workerID : UInt16) (entry : List ConnAction) : List Event :=
  let actions : List ConnAction :=
    [.take, .read (.request (soleClient.request workerID))] ++ entry ++ [.ack true, .attach, .release]
  .dial workerID :: actions.map fun a => .server (.conn h a)

def racingWorkers : List Event :=
  served 0 0 [.enter [] (some firstGeneration), .setup none] ++
    served 1 1 [.enter [Vector.replicate 16 1] none, .join] ++
    [Event.proceed 0 .receive, .proceed 1 .receive, .proceed 0 .load, .proceed 1 .load, .proceed 1 .swap,
      .proceed 0 .swap, .proceed 0 .reload, .proceed 1 .reload, .proceed 0 .compare]

theorem accepted_dial_admitted_racing : ∃ w,
    execWhile (step soleClient soleUser) (unreplaced soleClient) (.initial 0) racingWorkers = some w ∧
      w.dials.map Dial.progress = [.admitted, .comparing 7 7] ∧ ∀ d ∈ w.dials, d.progress ≠ .reset := by
  refine (exists_some_of_decide ?_).imp fun w ⟨hw, hdials⟩ => ⟨hw, hdials, fun d hd =>
      (accepted_dial_admitted soleClient soleUser 0 racingWorkers w (.of_execWhile hw) d hd).2.1⟩
  decide +kernel

def redialed : List Event :=
  served 0 0 [.enter [] (some firstGeneration), .setup none] ++
    [Event.proceed 0 .receive, .proceed 0 .load, .proceed 0 .swap, .proceed 0 .reload, .proceed 0 .compare,
      .server (.conn 0 .drop), .server (.watch 0 0), .server (.conn 0 .leave), .server (.conn 0 .unattach),
      .server (.conn 0 .closeRelay)] ++
    served 1 0 [.enter [] (some secondGeneration), .setup none] ++
    [Event.proceed 1 .receive, .proceed 1 .load, .proceed 1 .compare]

theorem accepted_redial_reset : ∃ w, exec (step soleClient soleUser) (.initial 0) redialed = some w ∧
    w.dials.map Dial.progress = [.admitted, .reset] ∧
    (w.server.conns[1]?).bind Conn.ack = some (encodeAuthAck true 9 AuthReject.unspecified.code) := by
  apply exists_some_of_decide
  decide +kernel

end Hydracore.Parasite.Client
