import Hydracore.Traffic.Reporting

namespace Hydracore.Traffic

open Systems Option Node Function

def TrafficUsage.after (usage : TrafficUsage) (total : ℕ) : ℕ :=
  if total = 0 then usage.used.toNat else min usage.quota.toNat (usage.used.toNat + total)

theorem TrafficUsage.after_add {usage : TrafficUsage} {total amount : ℕ} (h : amount ≠ 0) :
    min usage.quota.toNat (usage.after total + amount) = usage.after (total + amount) := by
  unfold TrafficUsage.after
  split_ifs <;> omega

theorem Manager.addTrafficUsage_cases {m : Manager} {id : ℕ} {n : UInt64} {failure : Option String} (hn : n ≠ 0)
    (hfits : ∀ stat, m.trafficUsage id = some stat →
      stat.used.toNat + n.toNat < 2 ^ 64 ∧ (failure = none ∨ stat.used = stat.quota)) :
    (∃ err, m.addTrafficUsage id n failure = (m, .error err)) ∨
      failure = none ∧ ∃ stat used, m.trafficUsage id = some stat ∧ used.toNat = min stat.quota.toNat (stat.used.toNat + n.toNat) ∧
        m.addTrafficUsage id n failure = (⟨update m.trafficUsage id (some { stat with used := used }),
          update m.repository id used⟩, .ok used) := by
  cases hstat : m.trafficUsage id with
  | none => exact .inl ⟨"limiter not found", by simp [addTrafficUsage, hstat]⟩
  | some stat =>
    obtain ⟨hlt, hfailure⟩ := hfits stat hstat
    have hsum : (stat.used + n).toNat = stat.used.toNat + n.toNat := by
      rw [UInt64.toNat_add, Nat.mod_eq_of_lt hlt]
    have hpos : 0 < n.toNat := by
      have := UInt64.toNat_inj.not.mpr hn
      simp only [UInt64.toNat_zero] at this
      omega
    cases failure with
    | some err =>
      have hfull : stat.used = stat.quota := by simpa using hfailure
      have hover : stat.quota < stat.used + n := by
        rw [UInt64.lt_iff_toNat_lt, hsum, ← hfull]
        omega
      have hsame : some { stat with used := stat.quota } = m.trafficUsage id := by
        obtain ⟨used, quota⟩ := stat
        obtain rfl : used = quota := hfull
        exact hstat.symm
      refine .inl ⟨err, ?_⟩
      simp only [addTrafficUsage, hstat, gt_iff_lt, hover, if_true]
      rw [update_eq_self_iff.mpr hsame]
    | none =>
      refine .inr ⟨rfl, stat, if stat.used + n > stat.quota then stat.quota else stat.used + n, rfl, ?_, ?_⟩
      rotate_left
      · simp only [addTrafficUsage, hstat]
      split_ifs with hover
      all_goals
        rw [gt_iff_lt, UInt64.lt_iff_toNat_lt, hsum] at hover
        omega

namespace Fleet

def pending (id : ℕ) (s : Fleet) : ℕ := total (Node.pending id) s.nodes

def kept (s : Fleet) (i object : ℕ) (call : TrafficLimiter → TrafficLimiter) : Bool :=
  s.nodes[i]?.all fun node => node.objects[object]?.all fun l =>
    l.recorded (call l) = 0 || (node.registered object && l.new.toNat + l.recorded (call l) < 2 ^ 64)

def careful (s : Fleet) : Step → Bool
  | .can i object n => s.kept i object fun l => (l.can n).1
  | .add i object n => s.kept i object fun l => (l.add n).1
  | .addTrafficUsage i failure =>
    s.nodes[i]?.all fun node => node.report.all fun report => (s.manager.trafficUsage report.id).all fun stat =>
      stat.used.toNat + report.amount.toNat < 2 ^ 64 && (failure = none || stat.used = stat.quota)
  | .settle i =>
    s.nodes[i]?.all fun node => node.report.all fun report => node.objects[report.object]?.all fun l =>
      !report.outstanding || l.new.toNat + report.amount.toNat < 2 ^ 64
  | .updateTrafficLimiter i limiter => s.nodes[i]?.all fun node => node.spares limiter
  | .updateTrafficLimiters i limiters => s.nodes[i]?.all fun node => limiters.all node.spares
  | .take _ _ | .deleteTrafficLimiter _ _ => true

def Counted (rows : ℕ → Option TrafficUsage) (s : Fleet) : Prop :=
  ∀ id usage, rows id = some usage → ∃ used reported, s.manager.trafficUsage id = some ⟨used, usage.quota⟩ ∧
    s.manager.repository id = used ∧ reported + s.pending id = s.charged id ∧ used.toNat = usage.after reported

structure Accounted (rows : ℕ → Option TrafficUsage) (s : Fleet) : Prop where
  tidy : ∀ node ∈ s.nodes, node.Tidy
  sent : ∀ node ∈ s.nodes, node.Sent
  counted : Counted rows s

section

variable {rows : ℕ → Option TrafficUsage} {s : Fleet} {i : ℕ} {node node' : Node}

theorem Accounted.start (rows : ℕ → Option TrafficUsage) (nodes : ℕ) : Accounted rows (start rows nodes) where
  tidy node hnode := by
    rw [List.eq_of_mem_replicate hnode]
    exact ⟨by rintro username object ⟨⟩, nofun⟩
  sent node hnode := by
    rw [List.eq_of_mem_replicate hnode]
    rintro report ⟨⟩
  counted id usage husage := by
    refine ⟨usage.used, 0, husage, by simp [Fleet.start, Manager.load, husage], ?_, rfl⟩
    have : total (Node.pending id) (Fleet.start rows nodes).nodes = 0 := by
      apply total_eq_zero
      intro node hnode
      rw [List.eq_of_mem_replicate hnode]
      rfl
    simp only [pending, this]
    rfl

theorem pending_setNode (id : ℕ) (h : s.nodes[i]? = some node) (node' : Node) :
    (s.setNode i node').pending id + node.pending id = s.pending id + node'.pending id := total_set h node'

theorem Accounted.setNode (ha : Accounted rows s) (h : s.nodes[i]? = some node) (htidy : node'.Tidy)
    (hsent : node'.Sent) (hpending : ∀ id, node'.pending id = node.pending id) :
    Accounted rows (s.setNode i node') where
  tidy := forall_mem_set ha.tidy htidy
  sent := forall_mem_set ha.sent hsent
  counted id usage husage := by
    obtain ⟨used, reported, hused, hstored, hsum, hafter⟩ := ha.counted id usage husage
    refine ⟨used, reported, hused, hstored, ?_, hafter⟩
    have := pending_setNode id h node'
    have := hpending id
    simp only [Fleet.setNode] at *
    omega

theorem recorded_add {l : TrafficLimiter} (call : TrafficLimiter → TrafficLimiter)
    (h : l.recorded (call l) = 0 ∨ l.new.toNat + l.recorded (call l) < 2 ^ 64) :
    (call l).new.toNat = l.new.toNat + l.recorded (call l) := by
  have hback : (call l).new = l.new + ((call l).new - l.new) := by simp
  have hsum : (call l).new.toNat = (l.new.toNat + l.recorded (call l)) % 2 ^ 64 := by
    rw [TrafficLimiter.recorded, ← UInt64.toNat_add, ← hback]
  have := l.new.toNat_lt
  rw [hsum, Nat.mod_eq_of_lt (by omega)]

variable {t : Fleet}

section

variable (ha : Accounted rows s)
include ha

theorem Accounted.charge {object : ℕ} {call : TrafficLimiter → TrafficLimiter}
    (hcall : ∀ l, (call l).limiter.id = l.limiter.id ∧ (call l).limiter.username = l.limiter.username)
    (hkept : s.kept i object call = true) (h : s.charge i object call = some t) : Accounted rows t := by
  obtain ⟨node, hnode, l, hl, rfl⟩ := bind_map_eq_some h
  obtain ⟨hid, hname⟩ := hcall l
  simp only [kept, hnode, all_some, hl, Bool.or_eq_true, Bool.and_eq_true, decide_eq_true_eq] at hkept
  have hmem := List.mem_of_getElem? hnode
  have hnew := recorded_add call (hkept.imp_right And.right)
  have htidy : Tidy { node with objects := node.objects.set object (call l) } := by
    refine (ha.tidy node hmem).set hl (call l) hname node.report ?_
    cases hreg : node.registered object with
    | true => exact .inl rfl
    | false =>
      have hzero := (ha.tidy node hmem).idle object l hl hreg
      obtain hrecorded | ⟨hreg', _⟩ := hkept
      · refine .inr (UInt64.toNat_inj.mp ?_)
        simp [hnew, hrecorded, hzero]
      · simp [hreg] at hreg'
  refine ⟨forall_mem_set ha.tidy htidy, forall_mem_set ha.sent ((ha.sent node hmem).set hl (call l) hname hid), ?_⟩
  intro id usage husage
  obtain ⟨used, reported, hused, hstored, hsum, hafter⟩ := ha.counted id usage husage
  refine ⟨used, reported, hused, hstored, ?_, hafter⟩
  have hfleet := pending_setNode id hnode { node with objects := node.objects.set object (call l) }
  have hpending := pending_set hl id (call l) node.report
  simp only [TrafficLimiter.pending, hid] at hpending
  simp only [Fleet.pending, update_apply] at *
  by_cases heq : id = l.limiter.id
  · simp only [heq, if_true] at *
    omega
  · simp only [heq, Ne.symm heq, if_false] at *
    omega

theorem Accounted.take {username : String} (h : s.step (.take i username) = some t) : Accounted rows t := by
  obtain ⟨node, hnode, node', htake, rfl⟩ := bind_map_eq_some h
  obtain ⟨hfree, htake⟩ := ite_none_left_eq_some.mp htake
  obtain ⟨object, hobject, htake⟩ := bind_eq_some_iff.mp htake
  obtain ⟨l, hl, htake⟩ := bind_eq_some_iff.mp htake
  obtain ⟨hnew, ⟨⟩⟩ := ite_none_left_eq_some.mp htake
  have htidy := ha.tidy node (List.mem_of_getElem? hnode)
  have hreport : node.report = none := by simpa using hfree
  have hregistered : node.registered object = true := by
    obtain ⟨l', hl', rfl⟩ := htidy.named username object hobject
    simpa [registered_eq hl'] using hobject
  apply ha.setNode hnode
  · exact htidy.set hl l.take rfl _ (.inl hregistered)
  · rintro report ⟨⟩
    have hlt := getElem?_lt hl
    exact ⟨hnew, (registered_set hl l.take rfl _ _).trans hregistered, l.take, by simp [hlt], rfl⟩
  · intro id
    have hset := pending_set hl id l.take (some ⟨object, l.limiter.id, l.new, none⟩)
    have htaken : l.take.pending id = 0 := by simp [TrafficLimiter.pending, TrafficLimiter.take]
    have hsent : Reporting.pending id ⟨object, l.limiter.id, l.new, none⟩ = l.pending id := by
      simp [Reporting.pending, Reporting.outstanding, TrafficLimiter.pending]
    simp only [hreport, map_none, getD_none, map_some, getD_some, htaken, hsent] at hset
    omega

theorem Accounted.settle (hmet : s.careful (.settle i) = true)
    (h : s.step (.settle i) = some t) : Accounted rows t := by
  obtain ⟨node, hnode, node', hsettle, rfl⟩ := bind_map_eq_some h
  obtain ⟨report, hreport, hsettle⟩ := bind_eq_some_iff.mp hsettle
  obtain ⟨answer, hanswer, l, hl, rfl⟩ := bind_map_eq_some hsettle
  have hmem := List.mem_of_getElem? hnode
  obtain ⟨_, hregistered, l', hl', hid⟩ := ha.sent node hmem report hreport
  cases hl.symm.trans hl'
  simp only [careful, hnode, hreport, hl, all_some, Bool.or_eq_true, Bool.not_eq_true', decide_eq_true_eq] at hmet
  apply ha.setNode hnode
  · refine (ha.tidy node hmem).set hl _ ?_ none (.inl hregistered)
    cases answer <;> rfl
  · rintro report ⟨⟩
  · intro id
    have hset := pending_set hl id (l.settle report.amount answer) none
    have hback : (l.settle report.amount answer).pending id = l.pending id + report.pending id := by
      cases answer with
      | ok newUsed =>
        have hdone : report.pending id = 0 := by simp [Reporting.pending, Reporting.outstanding, hanswer]
        rw [hdone]
        rfl
      | error err =>
        have hlt : l.new.toNat + report.amount.toNat < 2 ^ 64 := by
          simpa [Reporting.outstanding, hanswer] using hmet
        have hnew : (l.settle report.amount (.error err)).new.toNat = l.new.toNat + report.amount.toNat := by
          simp only [TrafficLimiter.settle, UInt64.toNat_add, Nat.mod_eq_of_lt hlt]
        have howed : report.pending id = if l.limiter.id = id then report.amount.toNat else 0 := by
          simp [Reporting.pending, Reporting.outstanding, hanswer, hid]
        have hsame : (l.settle report.amount (.error err)).limiter = l.limiter := rfl
        simp only [howed, TrafficLimiter.pending, hnew, hsame]
        split_ifs <;> rfl
    simp only [hreport, map_none, getD_none, map_some, getD_some, hback] at hset
    omega

theorem Accounted.update {f : Node → Node}
    (h : (s.nodes[i]?.bind fun node => (update node f).map (s.setNode i)) = some t)
    (hf : ∀ node, s.nodes[i]? = some node → node.Tidy →
      (f node).Tidy ∧ (f node).report = node.report ∧ ∀ id, (f node).pending id = node.pending id) :
    Accounted rows t := by
  obtain ⟨node, hnode, node', hupdate, rfl⟩ := bind_map_eq_some h
  obtain ⟨hfree, ⟨⟩⟩ := ite_none_left_eq_some.mp hupdate
  obtain ⟨htidy, hreport, hpending⟩ := hf node hnode (ha.tidy node (List.mem_of_getElem? hnode))
  refine ha.setNode hnode htidy ?_ hpending
  have hnone : (f node).report = none := by simpa [hreport] using hfree
  intro report hmem
  simp [hnone] at hmem

theorem Accounted.serve {failure : Option String}
    (hmet : s.careful (.addTrafficUsage i failure) = true) (h : s.serve i failure = some t) :
    Accounted rows t ∧ (failure ≠ none → t.manager = s.manager) := by
  obtain ⟨node, hnode, h⟩ := bind_eq_some_iff.mp h
  obtain ⟨report, hreport, h⟩ := bind_eq_some_iff.mp h
  obtain ⟨hopen, ⟨⟩⟩ := ite_none_left_eq_some.mp h
  have hmem := List.mem_of_getElem? hnode
  obtain ⟨hne, hregistered, l, hl, hid⟩ := ha.sent node hmem report hreport
  have hanswer : report.answer = none := by simpa using hopen
  have hfits : ∀ stat, s.manager.trafficUsage report.id = some stat →
      stat.used.toNat + report.amount.toNat < 2 ^ 64 ∧ (failure = none ∨ stat.used = stat.quota) := by
    simpa only [careful, hnode, hreport, all_some, all_eq_true, Bool.and_eq_true, Bool.or_eq_true,
      decide_eq_true_eq] using hmet
  have htidy (answer) : Tidy { node with report := answer } := ⟨(ha.tidy node hmem).named, (ha.tidy node hmem).idle⟩
  have hsent (answer) : Sent { node with report := some { report with answer := answer } } := by
    rintro _ ⟨⟩
    exact ⟨hne, hregistered, l, hl, hid⟩
  obtain ⟨err, hserved⟩ | ⟨hfailure, stat, used, hstat, hused, hserved⟩ := Manager.addTrafficUsage_cases hne hfits
  · rw [hserved]
    refine ⟨ha.setNode hnode (htidy _) (hsent _) fun id => ?_, fun _ => rfl⟩
    have := pending_answer id hreport (some (.error err))
    simp only [Reporting.pending, Reporting.outstanding, hanswer] at this
    dsimp only
    omega
  · rw [hserved]
    refine ⟨⟨forall_mem_set ha.tidy (htidy _), forall_mem_set ha.sent (hsent _), ?_⟩, absurd hfailure⟩
    intro id usage husage
    obtain ⟨used₀, reported, hused₀, hstored, hsum, hafter⟩ := ha.counted id usage husage
    have hfleet := pending_setNode id hnode { node with report := some { report with answer := some (.ok used) } }
    have hanswered := pending_answer id hreport (some (.ok used))
    have hdone : Reporting.pending id { report with answer := some (.ok used) } = 0 := by
      simp [Reporting.pending, Reporting.outstanding]
    simp only [Fleet.pending, Fleet.setNode] at *
    by_cases heq : id = report.id
    · subst heq
      cases hused₀.symm.trans hstat
      have howed : report.pending report.id = report.amount.toNat := by
        simp [Reporting.pending, Reporting.outstanding, hanswer]
      refine ⟨used, reported + report.amount.toNat, by simp, by simp, by omega, ?_⟩
      rw [hused, hafter]
      change min usage.quota.toNat _ = _
      apply TrafficUsage.after_add
      exact fun hzero => hne (UInt64.toNat_inj.mp (by simpa using hzero))
    · have howed : report.pending id = 0 := by simp [Reporting.pending, Ne.symm heq]
      refine ⟨used₀, reported, ?_, ?_, by omega, hafter⟩
      · rw [update_of_ne heq, hused₀]
      · rw [update_of_ne heq, hstored]

theorem Accounted.step {a : Step} (hmet : s.careful a = true) (h : s.step a = some t) : Accounted rows t := by
  have hcheck (l w : TrafficLimiter) (n : UInt64) (hw : w = l ∨ w = l.charge n) :
      (l.check n w).1.limiter.id = l.limiter.id ∧ (l.check n w).1.limiter.username = l.limiter.username := by
    obtain heq | ⟨_, _, heq⟩ | ⟨_, _, heq⟩ := l.check_cases w n
    · rw [heq]
      exact ⟨rfl, rfl⟩
    · rw [heq]
      exact ⟨rfl, rfl⟩
    · rw [heq]
      obtain rfl | rfl := hw <;> exact ⟨rfl, rfl⟩
  cases a with
  | can i object n => exact ha.charge (fun l => hcheck l l n (.inl rfl)) hmet h
  | add i object n => exact ha.charge (fun l => hcheck l (l.charge n) n (.inr rfl)) hmet h
  | take i username => exact ha.take h
  | addTrafficUsage i failure => exact (ha.serve hmet h).1
  | settle i => exact ha.settle hmet h
  | updateTrafficLimiter i limiter =>
    apply ha.update h
    intro node hnode htidy
    have hspares : node.spares limiter = true := by simpa [careful, hnode] using hmet
    exact ⟨htidy.updateTrafficLimiter hspares, updateTrafficLimiter_report, updateTrafficLimiter_pending⟩
  | updateTrafficLimiters i limiters =>
    apply ha.update h
    intro node hnode htidy
    have hspares : ∀ limiter ∈ limiters, node.spares limiter = true := by simpa [careful, hnode] using hmet
    exact (htidy.strategies fun _ => none).foldl limiters hspares
  | deleteTrafficLimiter i username =>
    apply ha.update h
    exact fun node _ htidy => ⟨htidy.strategies _, rfl, fun _ => rfl⟩

end

end

def reported (s : Fleet) : Bool :=
  s.nodes.all fun node => node.report.isNone && (List.range node.objects.length).all fun object =>
    !node.registered object || node.objects[object]?.all fun l => l.new = 0

theorem Accounted.pending_eq_zero {rows : ℕ → Option TrafficUsage} {s : Fleet} (ha : Accounted rows s)
    (h : s.reported = true) (id : ℕ) : s.pending id = 0 := by
  apply total_eq_zero
  intro node hnode
  simp only [reported, List.all_eq_true, Bool.and_eq_true, isNone_iff_eq_none, List.mem_range] at h
  obtain ⟨hreport, hnew⟩ := h node hnode
  simp only [Node.pending, hreport, map_none, getD_none, Nat.add_zero]
  apply total_eq_zero
  intro l hl
  obtain ⟨object, hobject⟩ := List.mem_iff_getElem?.mp hl
  have hzero : l.new = 0 := by
    cases hregistered : node.registered object with
    | false => exact (ha.tidy node hnode).idle object l hobject hregistered
    | true =>
      have := hnew object (getElem?_lt hobject)
      simpa [hregistered, hobject] using this
  simp [TrafficLimiter.pending, hzero]

theorem usage_counted_once (rows : ℕ → Option TrafficUsage) (nodes : ℕ) {as : List Step} {s : Fleet}
    (hrun : Run step (careful · ·) (start rows nodes) as s) :
    (s.reported = true → ∀ id usage, rows id = some usage → ∃ used, s.manager.trafficUsage id = some ⟨used, usage.quota⟩ ∧
      s.manager.repository id = used ∧ used.toNat = usage.after (s.charged id)) ∧
    ∀ i err t, s.careful (.addTrafficUsage i (some err)) = true → s.step (.addTrafficUsage i (some err)) = some t →
      t.manager = s.manager := by
  have ha : Accounted rows s :=
    hrun.invariant (fun ht => ht.step) (.start rows nodes)
  constructor
  · intro hreported id usage husage
    obtain ⟨used, reported, hused, hstored, hsum, hafter⟩ := ha.counted id usage husage
    rw [ha.pending_eq_zero hreported id, Nat.add_zero] at hsum
    exact ⟨used, hused, hstored, hsum ▸ hafter⟩
  · intro i err t hmet hstep
    exact (ha.serve hmet hstep).2 nofun

def oneRow : ℕ → Option TrafficUsage := fun id => if id = 1 then some ⟨10, 100⟩ else none

def userLimiter : LimiterRecord := ⟨1, "user", "global", "upload", 10, 100⟩

def replacedSteps : List Step :=
  [.updateTrafficLimiter 0 userLimiter, .add 0 0 40, .take 0 "user", .addTrafficUsage 0 none, .settle 0,
    .updateTrafficLimiter 0 { userLimiter with rawUsed := 50 }, .add 0 1 20, .deleteTrafficLimiter 0 "user",
    .take 0 "user", .addTrafficUsage 0 none, .settle 0]

def used (s : Fleet) : Option UInt64 := (s.manager.trafficUsage 1).map TrafficUsage.used

theorem usage_counted_once_replaced : ∃ s used, Run step (careful · ·) (start oneRow 1) replacedSteps s ∧
    s.reported = true ∧ s.charged 1 = 60 ∧ s.manager.trafficUsage 1 = some ⟨used, 100⟩ ∧ used.toNat = 70 := by
  have hend : (execWhile step careful (start oneRow 1) replacedSteps).any (fun s => s.reported = true ∧ s.charged 1 = 60) =
      true := by
    decide +kernel
  obtain ⟨s, hrun, hreported, hcharged⟩ := Run.exists_of_decideWhile hend
  obtain ⟨used, hused, _, hafter⟩ := (usage_counted_once oneRow 1 hrun).1 hreported 1 ⟨10, 100⟩ rfl
  rw [hcharged] at hafter
  exact ⟨s, used, hrun, hreported, hcharged, hused, hafter⟩

def failedSteps : List Step :=
  [.updateTrafficLimiter 0 userLimiter, .add 0 0 40, .take 0 "user", .addTrafficUsage 0 (some "database is locked"),
    .settle 0, .take 0 "user", .addTrafficUsage 0 none, .settle 0]

def droppedSteps : List Step :=
  [.updateTrafficLimiter 0 userLimiter, .add 0 0 40, .updateTrafficLimiter 0 userLimiter]

theorem usage_miscounted :
    (∃ s, Run step anyStep (start oneRow 1) failedSteps s ∧ s.reported = true ∧ s.charged 1 = 40 ∧
      s.used = some 90) ∧
    ∃ s, Run step anyStep (start oneRow 1) droppedSteps s ∧ s.reported = true ∧ s.charged 1 = 40 ∧
      s.used = some 10 := by
  refine ⟨Run.exists_of_decide ?_, Run.exists_of_decide ?_⟩
  · decide +kernel
  · decide +kernel

end Fleet

end Hydracore.Traffic
