import Hydracore.Failover.Sessions

namespace Hydracore.Failover

open Systems Common List Option

variable {σ : Type} {conn : ℕ} {session : σ}

namespace Task

def closes : Task σ → Option ℕ
  | entering _ conn | joining _ conn => some conn
  | _ => none

def restores : Task σ → Option ℕ
  | awaiting _ conn => some conn
  | _ => none

theorem restores_of_held (task : Task σ) (hheld : task.held = some session)
    (hwanted : task.wantedMtx = some conn) : task.restores = some conn := by
  cases task <;> simp_all [held, wantedMtx, restores]

theorem closes_of_wanted (task : Task σ) (hwanted : task.wanted = some session)
    (hheld : task.heldMtx = some conn) : task.closes = some conn := by
  cases task <;> simp_all [wanted, heldMtx, closes]

end Task

namespace Inbound

variable {h h' : Inbound σ} {ok : Bool} {task next : Task σ}

variable {f : RWMutex → Option RWMutex} {after : Task σ}

theorem withMtx_eq (hmove : h.withMtx conn f after = some (h', next)) :
    next = after ∧ ∃ c mtx, h.heap[conn]? = some c ∧ f c.mtx = some mtx ∧
      h' = { h with heap := h.heap.set conn { c with mtx := mtx } } := by
  obtain ⟨c, hc, mtx, hmtx, heq⟩ := bind_map_eq_some hmove
  cases heq
  exact ⟨rfl, c, mtx, hc, hmtx, rfl⟩

variable [DecidableEq σ]

def orderly (h : Inbound σ) : Step σ → Bool
  | .advance i ok =>
    match h.tasks[i]? with
    | some (.serving command _) => command = commandTCP || command = commandReconnect
    | some (.found _ _) => ok
    | some (.restoring _ conn) => h.tasks.all fun task => task.closes ≠ some conn
    | _ => true
  | _ => true

def SessionMove (h h' : Inbound σ) (task next : Task σ) : Prop :=
  Kmutex.Move h.sessionMtx h'.sessionMtx task.held task.wanted next.held next.wanted

def writers (h : Inbound σ) (conn : ℕ) : ℕ := (h.heap[conn]?.map fun c => c.mtx.waiting).getD 0

section Moves

omit [DecidableEq σ]

theorem writers_set {c : Conn σ} (hc : h.heap[conn]? = some c) (mtx : RWMutex) (other : ℕ) :
    writers { h with heap := h.heap.set conn { c with mtx := mtx } } other =
      if other = conn then mtx.waiting else h.writers other := by
  have hlt := getElem?_lt hc
  by_cases heq : other = conn
  · subst heq
    simp [writers, hlt]
  · simp [writers, heq, getElem?_set_ne (Ne.symm heq)]

inductive MtxMove (h h' : Inbound σ) (task next : Task σ) : Prop
  | stay (waiting : ∀ conn, h'.writers conn = h.writers conn) (restores : next.restores = task.restores)
      (closes : next.closes = none ∨ next.closes = task.closes)
  | wait (session : σ) (conn : ℕ) (restoring : task = .restoring session conn)
      (waiting : ∀ other, h'.writers other = h.writers other + if other = conn then 1 else 0)
      (restores : next.restores = some conn) (closes : next.closes = none)
  | lock (conn : ℕ) (waiting : ∀ other, h'.writers other + (if other = conn then 1 else 0) = h.writers other)
      (restores : task.restores = some conn ∧ next.restores = none) (closes : next.closes = none)
  | enter (conn : ℕ) (free : h.writers conn = 0) (waiting : ∀ other, h'.writers other = h.writers other)
      (restores : task.restores = none ∧ next.restores = none) (closes : next.closes = some conn)

theorem writers_kept {c : Conn σ} {mtx : RWMutex} (hc : h.heap[conn]? = some c) (hsame : mtx.waiting = c.mtx.waiting)
    (other : ℕ) : writers { h with heap := h.heap.set conn { c with mtx := mtx } } other = h.writers other := by
  rw [writers_set hc]
  split_ifs with heq
  · rw [hsame, heq]
    simp [writers, hc]
  · rfl

theorem rLock_waiting {m m' : RWMutex} (h : m.rLock = some m') : m.waiting = 0 ∧ m'.waiting = m.waiting := by
  obtain ⟨hfree, ⟨⟩⟩ := ite_none_left_eq_some.mp h
  simp only [Bool.or_eq_true, decide_eq_true_eq, not_or, not_not] at hfree
  exact ⟨hfree.2, rfl⟩

end Moves

structure Moved (h h' : Inbound σ) (task next : Task σ) : Prop where
  tasks : h'.tasks = h.tasks
  session : SessionMove h h' task next
  mtx : MtxMove h h' task next

namespace Moved

section

variable (hmove : h.withMtx conn f after = some (h', next)) (hheld : after.held = task.held)
  (hwanted : after.wanted = task.wanted)
include hmove hheld hwanted

theorem of_withMtx (hmtx : ∀ c mtx, h.heap[conn]? = some c → f c.mtx = some mtx →
      MtxMove h { h with heap := h.heap.set conn { c with mtx := mtx } } task after) :
    Moved h h' task next := by
  obtain ⟨rfl, c, mtx, hc, hf, rfl⟩ := withMtx_eq hmove
  refine ⟨rfl, ?_, hmtx c mtx hc hf⟩
  rw [SessionMove, hheld, hwanted]
  exact .stay rfl

theorem of_unlock (hf : ∀ m m', f m = some m' → m'.waiting = m.waiting)
    (hrestores : after.restores = task.restores) (hcloses : after.closes = none) : Moved h h' task next :=
  .of_withMtx hmove hheld hwanted fun _ _ hc hmtx => .stay (writers_kept hc (hf _ _ hmtx)) hrestores (.inl hcloses)

end

theorem of_lockSession {taken waits : Task σ} (hmove : h.lockSession session taken waits = (h', next))
    (htask : task.held = none ∧ task.wanted = none ∧ task.restores = none)
    (htaken : taken.held = some session ∧ taken.wanted = none ∧ taken.restores = none ∧ taken.closes = none)
    (hwaits : waits.held = none ∧ waits.wanted = some session ∧ waits.restores = none ∧ waits.closes = task.closes) :
    Moved h h' task next := by
  cases hmove
  cases hfree : h.sessionMtx session with
  | none =>
    simp only [isNone_none, if_true]
    refine ⟨rfl, ?_, .stay (fun _ => rfl) (by rw [htaken.2.2.1, htask.2.2]) (.inl htaken.2.2.2)⟩
    simp only [SessionMove, htask, htaken]
    exact .take session hfree rfl
  | some kl =>
    simp only [isNone_some, Bool.false_eq_true, if_false]
    refine ⟨rfl, ?_, .stay (fun _ => rfl) (by rw [hwaits.2.2.1, htask.2.2]) (.inr hwaits.2.2.2)⟩
    simp only [SessionMove, htask, hwaits]
    exact .wait session (by simp [hfree]) rfl

theorem of_wakeSession (hmove : h.wakeSession session after = some (h', next))
    (hwaits : task.held = none ∧ task.wanted = some session ∧ task.restores = none)
    (hholds : after.held = some session ∧ after.wanted = none ∧ after.restores = none ∧ after.closes = none) :
    Moved h h' task next := by
  obtain ⟨km, hkm, heq⟩ := map_eq_some_iff.mp hmove
  cases heq
  refine ⟨rfl, ?_, .stay (fun _ => rfl) (by rw [hholds.2.2.1, hwaits.2.2]) (.inl hholds.2.2.2)⟩
  simp only [SessionMove, hwaits, hholds]
  exact .wake session hkm

theorem of_unlockSession {conns : σ → Option ℕ}
    (hmove : { h with conns := conns }.unlockSession session after = some (h', next))
    (hholds : task.held = some session ∧ task.wanted = none ∧ task.restores = none)
    (hidle : after.held = none ∧ after.wanted = none ∧ after.restores = none ∧ after.closes = none) :
    Moved h h' task next := by
  obtain ⟨km, hkm, heq⟩ := map_eq_some_iff.mp hmove
  cases heq
  refine ⟨rfl, ?_, .stay (fun _ => rfl) (by rw [hidle.2.2.1, hholds.2.2]) (.inl hidle.2.2.2)⟩
  simp only [SessionMove, hholds, hidle]
  exact .release session hkm

end Moved

theorem advance_moved (hmove : h.advance ok task = some (h', next))
    (hcommand : ∀ command session, task = .serving command session → command = commandTCP ∨ command = commandReconnect)
    (hok : ∀ session conn, task = .found session conn → ok = true)
    (hwait : ∀ session conn, task = .awaiting session conn → h.writers conn ≠ 0) : Moved h h' task next := by
  cases task with
  | received command session | entering session conn =>
    exact .of_lockSession (some.inj hmove) ⟨rfl, rfl, rfl⟩ ⟨rfl, rfl, rfl, rfl⟩ ⟨rfl, rfl, rfl, rfl⟩
  | locking command session | joining session conn =>
    exact .of_wakeSession hmove ⟨rfl, rfl, rfl⟩ ⟨rfl, rfl, rfl, rfl⟩
  | serving command session =>
    have hserve := some.inj hmove
    obtain rfl | rfl := hcommand command session rfl
    · cases hserve
      refine ⟨rfl, .stay rfl, .stay (fun conn => ?_) rfl (.inl rfl)⟩
      simp only [writers, getElem?_append]
      split_ifs with hlt
      · rfl
      · cases hindex : conn - h.heap.length <;> simp [getElem?_eq_none (not_lt.mp hlt)]
    · cases hconn : h.conns session <;> simp [serve, commandReconnect, commandTCP, hconn] at hserve <;>
        obtain ⟨rfl, rfl⟩ := hserve <;> exact ⟨rfl, .stay rfl, .stay (fun _ => rfl) rfl (.inl rfl)⟩
  | found session conn =>
    obtain rfl := hok session conn rfl
    cases hmove
    exact ⟨rfl, .stay rfl, .stay (fun _ => rfl) rfl (.inl rfl)⟩
  | restoring session conn =>
    refine .of_withMtx (f := fun m => some m.await) hmove rfl rfl fun c mtx hc hmtx => ?_
    cases hmtx
    refine .wait session conn rfl (fun other => ?_) rfl rfl
    rw [writers_set hc]
    split_ifs with heq
    · simp [heq, writers, hc, RWMutex.await]
    · rfl
  | awaiting session conn =>
    refine .of_withMtx hmove rfl rfl fun c mtx hc hmtx => ?_
    obtain ⟨_, ⟨⟩⟩ := ite_none_left_eq_some.mp hmtx
    have hpos := hwait session conn rfl
    refine .lock conn (fun other => ?_) ⟨rfl, rfl⟩ rfl
    rw [writers_set hc]
    simp only [writers, hc, map_some, getD_some] at hpos
    split_ifs with heq
    · simp only [heq, writers, hc, map_some, getD_some]
      omega
    · rfl
  | exchanging session conn =>
    exact .of_unlock (f := fun m => some m.unlock) hmove rfl rfl (by rintro m _ ⟨⟩; rfl) rfl rfl
  | releasing session | deleting session conn =>
    exact .of_unlockSession hmove ⟨rfl, rfl, rfl⟩ ⟨rfl, rfl, rfl, rfl⟩
  | closing session conn =>
    refine .of_withMtx hmove rfl rfl fun c mtx hc hmtx => ?_
    obtain ⟨hfree, hsame⟩ := rLock_waiting hmtx
    exact .enter conn (by simp [writers, hc, hfree]) (writers_kept hc hsame) ⟨rfl, rfl⟩ rfl
  | leaving conn | busy conn =>
    exact .of_unlock (f := fun m => some m.rUnlock) hmove rfl rfl (by rintro m _ ⟨⟩; rfl) rfl rfl
  | requesting conn => exact .of_unlock hmove rfl rfl (fun _ _ hm => (rLock_waiting hm).2) rfl rfl
  | returned => cases hmove

def holding (h : Inbound σ) (session : σ) : ℕ := h.tasks.countP fun task => task.held = some session

def waiting (h : Inbound σ) (session : σ) : ℕ := h.tasks.countP fun task => task.wanted = some session

structure Locked (h : Inbound σ) : Prop where
  balanced : ∀ session, h.sessionMtx.Balanced session (h.holding session) (h.waiting session)
  writers : ∀ conn, h.writers conn = h.tasks.countP fun task => task.restores = some conn
  apart : ∀ conn, ∀ task ∈ h.tasks, task.restores = some conn → ∀ other ∈ h.tasks, other.closes ≠ some conn

theorem Locked.start : Locked (start : Inbound σ) where
  balanced session := ⟨rfl, rfl⟩
  writers conn := rfl
  apart conn task htask := by cases htask

theorem Locked.spawn (hl : Locked h) (hmtx : h'.sessionMtx = h.sessionMtx) (hwriters : ∀ conn, h'.writers conn = h.writers conn)
    (htasks : h'.tasks = h.tasks ++ [task]) (hidle : task.held = none ∧ task.wanted = none)
    (hfree : task.restores = none ∧ task.closes = none) : Locked h' where
  balanced session := by
    simpa [holding, waiting, htasks, hidle, hmtx] using hl.balanced session
  writers conn := by
    simpa [htasks, hfree, hwriters] using hl.writers conn
  apart conn task hmem hrestores other hother := by
    rw [htasks, mem_append, mem_singleton] at hmem hother
    obtain hmem | rfl := hmem
    · obtain hother | rfl := hother
      · exact hl.apart conn task hmem hrestores other hother
      · simp [hfree]
    · simp [hfree] at hrestores

omit [DecidableEq σ] in
theorem writers_move {i : ℕ} (htask : h.tasks[i]? = some task) (hmove : MtxMove h h' task next)
    (hwriters : ∀ conn, h.writers conn = h.tasks.countP fun task => task.restores = some conn) (conn : ℕ) :
    h'.writers conn = (h.tasks.set i next).countP fun task => task.restores = some conn := by
  have hcount := countP_set_add (p := fun task => task.restores = some conn) (b := next) htask
  have hbefore := hwriters conn
  simp only [decide_eq_true_eq] at hcount
  cases hmove with
  | stay waiting restores _ =>
    rw [restores] at hcount
    rw [waiting, hbefore, Nat.add_right_cancel hcount]
  | wait session added restoring waiting restores _ =>
    have hidle : task.restores = none := by rw [restoring]; rfl
    simp only [hidle, restores, some.injEq, reduceCtorEq, if_false, Nat.add_zero, @eq_comm _ added] at hcount
    rw [waiting, hbefore, hcount]
  | lock locked waiting restores _ =>
    simp only [restores, some.injEq, reduceCtorEq, if_false, Nat.add_zero, @eq_comm _ locked] at hcount
    have := waiting conn
    omega
  | enter entered _ waiting restores _ =>
    simp only [restores, reduceCtorEq, if_false, Nat.add_zero] at hcount
    rw [waiting, hbefore, hcount]

theorem Locked.apart_move (hl : Locked h) {i : ℕ} (htask : h.tasks[i]? = some task) (hmove : MtxMove h h' task next)
    (hcalm : ∀ session conn, task = .restoring session conn → ∀ other ∈ h.tasks, other.closes ≠ some conn)
    (conn : ℕ) : ∀ one ∈ h.tasks.set i next, one.restores = some conn → ∀ other ∈ h.tasks.set i next,
      other.closes ≠ some conn := by
  have hmem := mem_of_getElem? htask
  intro one hone hrestores other hother hcloses
  obtain hold | rfl := mem_or_eq_of_mem_set hone
  · obtain hbefore | hnew := mem_or_eq_of_mem_set hother
    · exact hl.apart conn one hold hrestores other hbefore hcloses
    rw [hnew] at hcloses
    cases hmove with
    | stay _ _ closes =>
      rw [hcloses] at closes
      exact hl.apart conn one hold hrestores task hmem (by simpa [eq_comm] using closes)
    | wait _ _ _ _ _ closes | lock _ _ _ closes => simp [closes] at hcloses
    | enter entered free _ _ closes =>
      obtain rfl : entered = conn := by simpa [closes] using hcloses
      -- a writer that waits keeps the close out
      rw [hl.writers, countP_eq_zero] at free
      exact free one hold (by simpa using hrestores)
  · have hclear : ∀ old ∈ h.tasks, old.closes ≠ some conn := by
      cases hmove with
      | stay _ restores _ => exact hl.apart conn task hmem (restores ▸ hrestores)
      | wait session added restoring _ restores _ =>
        obtain rfl : added = conn := by simpa [restores] using hrestores
        exact hcalm session added restoring
      | lock _ _ restores _ | enter _ _ _ restores _ => simp [restores] at hrestores
    obtain hbefore | rfl := mem_or_eq_of_mem_set hother
    · exact hclear other hbefore hcloses
    · cases other <;> simp [Task.restores, Task.closes] at hrestores hcloses

theorem Locked.step (hl : Locked h) {a : Step σ} (hmet : h.orderly a = true) (hstep : h.step a = some h') : Locked h' := by
  cases a with
  | accept command session =>
    cases hstep
    exact hl.spawn rfl (fun _ => rfl) rfl ⟨rfl, rfl⟩ ⟨rfl, rfl⟩
  | close conn =>
    obtain ⟨c, hc, hstep⟩ := bind_eq_some_iff.mp hstep
    obtain ⟨_, ⟨⟩⟩ := ite_none_left_eq_some.mp hstep
    refine hl.spawn rfl (fun other => ?_) rfl ⟨rfl, rfl⟩ ⟨rfl, rfl⟩
    have hlt := getElem?_lt hc
    by_cases heq : other = conn
    · subst heq
      simp only [Inbound.writers, getElem?_set_self hlt, hc, map_some]
    · simp only [Inbound.writers, getElem?_set_ne (Ne.symm heq)]
  | use conn =>
    obtain ⟨_, ⟨⟩⟩ := ite_none_right_eq_some.mp hstep
    exact hl.spawn rfl (fun _ => rfl) rfl ⟨rfl, rfl⟩ ⟨rfl, rfl⟩
  | advance i ok =>
    obtain ⟨task, htask, ⟨moved, next⟩, hmove, rfl⟩ := bind_map_eq_some hstep
    simp only [orderly, htask] at hmet
    obtain ⟨htasks, hsession, hmtx⟩ : Moved h moved task next := by
      refine advance_moved hmove ?_ ?_ ?_
      · rintro command session rfl
        simpa using hmet
      · rintro session conn rfl
        exact hmet
      · rintro session conn rfl hzero
        rw [hl.writers, countP_eq_zero] at hzero
        exact hzero _ (mem_of_getElem? htask) (by simp [Task.restores])
    refine ⟨fun session => ?_, fun conn => ?_, fun conn => ?_⟩
    · simp only [htasks]
      exact hsession.balanced htask (hl.balanced session)
    · simp only [htasks]
      exact writers_move htask hmtx hl.writers conn
    · simp only [htasks]
      refine hl.apart_move htask hmtx ?_ conn
      rintro session conn rfl
      simpa using hmet

theorem session_locks_released {as : List (Step σ)} (hrun : Run step (orderly · ·) start as h) (session : σ) :
    h.sessionMtx.ref session = h.holding session + h.waiting session ∧
      (∀ task ∈ h.tasks, task.held = some session → (h.sessionMtx.unlock session).isSome = true) ∧
      ((∀ task ∈ h.tasks, task = .returned) → h.sessionMtx session = none) ∧
      ∀ conn, ∀ task ∈ h.tasks, task.held = some session → task.wantedMtx = some conn →
        ∀ other ∈ h.tasks, other.heldMtx = some conn → other.wanted ≠ some session := by
  have hl : Locked h := hrun.invariant (fun ht => ht.step) .start
  refine ⟨(hl.balanced session).ref_eq, ?_, ?_, ?_⟩
  · intro task htask hheld
    have hpos : 0 < h.holding session := List.countP_pos_iff.mpr ⟨task, htask, by simpa using hheld⟩
    have hbalanced := hl.balanced session
    rw [← Nat.sub_add_cancel hpos] at hbalanced
    exact hbalanced.unlock_isSome
  · intro hreturned
    have hholding : h.holding session = 0 := by
      refine List.countP_eq_zero.mpr fun task htask => ?_
      simp [hreturned task htask, Task.held]
    have hwaiting : h.waiting session = 0 := by
      refine List.countP_eq_zero.mpr fun task htask => ?_
      simp [hreturned task htask, Task.wanted]
    have hbalanced := hl.balanced session
    rw [hholding, hwaiting] at hbalanced
    exact hbalanced.eq_none
  · intro conn task htask hheld hwantedMtx other hother hheldMtx hwanted
    refine hl.apart conn task htask (task.restores_of_held hheld hwantedMtx) other hother ?_
    exact other.closes_of_wanted hwanted hheldMtx

def servedSteps : List (Step ℕ) :=
  [Step.accept commandTCP 0] ++ List.replicate 3 (Step.advance 0 true) ++ [Step.accept commandReconnect 0] ++
    List.replicate 7 (Step.advance 1 true) ++ [Step.close 0] ++ List.replicate 6 (Step.advance 2 true)

theorem session_locks_released_served : ∃ h : Inbound ℕ, Run step (orderly · ·) start servedSteps h ∧
    h.tasks = List.replicate 3 .returned ∧ h.sessionMtx 0 = none := by
  have hrun : Run step (orderly · ·) (start : Inbound ℕ) servedSteps _ := Run.of_execWhile rfl
  refine ⟨_, hrun, rfl, (session_locks_released hrun 0).2.2.1 ?_⟩
  exact fun task htask => List.eq_of_mem_replicate (n := 3) htask

def unknownSteps : List (Step ℕ) := [.accept 7 0, .advance 0 true, .advance 0 true]

def unwrittenSteps : List (Step ℕ) :=
  [Step.accept commandTCP 0] ++ List.replicate 3 (Step.advance 0 true) ++
    [Step.accept commandReconnect 0, .advance 1 true, .advance 1 true, .advance 1 false]

def crossedSteps : List (Step ℕ) :=
  [Step.accept commandTCP 0] ++ List.replicate 3 (Step.advance 0 true) ++ [Step.close 0, .advance 1 true, .accept commandReconnect 0] ++
    List.replicate 4 (Step.advance 2 true) ++ [Step.advance 1 true]

theorem session_locks_kept :
    (∃ h : Inbound ℕ, Run step anyStep start unknownSteps h ∧ h.tasks = [.returned] ∧ h.sessionMtx.ref 0 = 1) ∧
    (∃ h : Inbound ℕ, Run step anyStep start unwrittenSteps h ∧ h.tasks = [.returned, .returned] ∧
      h.sessionMtx.ref 0 = 1) ∧
    ∃ (h : Inbound ℕ) (task other : Task ℕ), Run step anyStep start crossedSteps h ∧ task ∈ h.tasks ∧
      other ∈ h.tasks ∧ task.held = some 0 ∧ task.wantedMtx = some 0 ∧ other.heldMtx = some 0 ∧ other.wanted = some 0 :=
  ⟨⟨_, Run.of_exec rfl, rfl, rfl⟩, ⟨_, Run.of_exec rfl, rfl, rfl⟩, _, .awaiting 0 0, .joining 0 0, Run.of_exec rfl,
    List.mem_of_getElem? (i := 2) rfl, List.mem_of_getElem? (i := 1) rfl, rfl, rfl, rfl, rfl⟩

end Inbound

end Hydracore.Failover
