import Hydracore.Traffic.Node

namespace Hydracore.Traffic

open Systems List

namespace Reporting

def outstanding (report : Reporting) : Bool :=
  match report.answer with
  | some (.ok _) => false
  | some (.error _) | none => true

def pending (id : ℕ) (report : Reporting) : ℕ :=
  if report.id = id ∧ report.outstanding then report.amount.toNat else 0

end Reporting

def TrafficLimiter.pending (id : ℕ) (l : TrafficLimiter) : ℕ := if l.limiter.id = id then l.new.toNat else 0

namespace Node

def pending (id : ℕ) (node : Node) : ℕ :=
  total (TrafficLimiter.pending id) node.objects + (node.report.map (Reporting.pending id)).getD 0

def spent (node : Node) (username : String) : Bool :=
  (node.limiters username).all fun object => node.objects[object]?.all fun l => l.new = 0

def spares (node : Node) (limiter : LimiterRecord) : Bool :=
  !(createStrategy 0 limiter.strategy limiter.mode).isOk || node.spent limiter.username

structure Tidy (node : Node) : Prop where
  named : ∀ username object, node.limiters username = some object →
    ∃ l, node.objects[object]? = some l ∧ l.limiter.username = username
  idle : ∀ object l, node.objects[object]? = some l → node.registered object = false → l.new = 0

def Sent (node : Node) : Prop :=
  ∀ report ∈ node.report, report.amount ≠ 0 ∧ node.registered report.object = true ∧
    ∃ l, node.objects[report.object]? = some l ∧ l.limiter.id = report.id

section

variable {node : Node} {object : ℕ} {l : TrafficLimiter} (h : node.objects[object]? = some l)

include h

theorem registered_eq :
    node.registered object = decide (node.limiters l.limiter.username = some object) := by
  simp [registered, h]

theorem pending_set (id : ℕ) (l' : TrafficLimiter) (report : Option Reporting) :
    pending id { node with objects := node.objects.set object l', report := report } + l.pending id +
        (node.report.map (Reporting.pending id)).getD 0 =
      node.pending id + l'.pending id + (report.map (Reporting.pending id)).getD 0 := by
  have := total_set (f := TrafficLimiter.pending id) h l'
  simp only [pending]
  omega

variable (l' : TrafficLimiter) (hname : l'.limiter.username = l.limiter.username) (report : Option Reporting)

include hname

theorem registered_set (o : ℕ) :
    registered { node with objects := node.objects.set object l', report := report } o = node.registered o := by
  simp only [registered, getElem?_set]
  obtain ⟨hlt, rfl⟩ := List.getElem?_eq_some_iff.mp h
  by_cases heq : object = o
  · subst heq
    simp [hlt, hname]
  · simp [heq]

theorem Tidy.set (ht : node.Tidy) (hnew : node.registered object = true ∨ l'.new = 0) :
    Tidy { node with objects := node.objects.set object l', report := report } where
  named username o ho := by
    obtain ⟨m, hm, rfl⟩ := ht.named username o ho
    have hlt := getElem?_lt h
    by_cases heq : object = o
    · subst heq
      cases h.symm.trans hm
      exact ⟨l', by simp [hlt], hname⟩
    · exact ⟨m, by simpa [heq] using hm, rfl⟩
  idle o m hm hfree := by
    rw [registered_set h l' hname] at hfree
    rcases getElem?_set_cases hm with ⟨rfl, rfl⟩ | ⟨_, hm⟩
    · apply hnew.resolve_left
      simp [hfree]
    · exact ht.idle o m hm hfree

theorem Sent.set (hs : node.Sent) (hid : l'.limiter.id = l.limiter.id) :
    Sent { node with objects := node.objects.set object l' } := by
  intro report hreport
  obtain ⟨hne, hreg, m, hm, hmid⟩ := hs report hreport
  refine ⟨hne, (registered_set h l' hname _ _).trans hreg, ?_⟩
  have hlt := getElem?_lt h
  by_cases heq : object = report.object
  · rw [← heq] at hm
    cases h.symm.trans hm
    exact ⟨l', by simp [← heq, hlt], hid.trans hmid⟩
  · exact ⟨m, by simpa [heq] using hm, hmid⟩

end

section

variable {node : Node} {limiter : LimiterRecord}

theorem pending_answer (id : ℕ) {report : Reporting} (hreport : node.report = some report)
    (answer : Option (Except String UInt64)) :
    pending id { node with report := some { report with answer := answer } } + report.pending id =
      node.pending id + Reporting.pending id { report with answer := answer } := by
  simp only [pending, hreport, Option.map_some, Option.getD_some]
  omega

theorem updateTrafficLimiter_cases (node : Node) (limiter : LimiterRecord) :
    node.updateTrafficLimiter limiter = node ∨
      (createStrategy 0 limiter.strategy limiter.mode).isOk = true ∧ ∃ strategies,
        node.updateTrafficLimiter limiter = ⟨node.objects ++ [.newTrafficLimiter limiter],
          Function.update node.limiters limiter.username (some node.objects.length), strategies, node.report⟩ := by
  have hok (object : ℕ) : (createStrategy object limiter.strategy limiter.mode).isOk =
      (createStrategy 0 limiter.strategy limiter.mode).isOk := by
    unfold createStrategy
    split_ifs <;> rfl
  unfold updateTrafficLimiter
  cases hcreate : createStrategy node.objects.length limiter.strategy limiter.mode with
  | error err => exact .inl rfl
  | ok strategy =>
    refine .inr ⟨?_, _, rfl⟩
    rw [← hok node.objects.length, hcreate]
    rfl

theorem updateTrafficLimiter_report : (node.updateTrafficLimiter limiter).report = node.report := by
  obtain heq | ⟨_, strategies, heq⟩ := updateTrafficLimiter_cases node limiter <;> rw [heq]

theorem updateTrafficLimiter_pending (id : ℕ) :
    (node.updateTrafficLimiter limiter).pending id = node.pending id := by
  obtain heq | ⟨_, strategies, heq⟩ := updateTrafficLimiter_cases node limiter
  · rw [heq]
  · have hzero : TrafficLimiter.pending id (.newTrafficLimiter limiter) = 0 := by
      simp [TrafficLimiter.pending, TrafficLimiter.newTrafficLimiter]
    simp [heq, pending, total_append, total, hzero]

theorem spent_updateTrafficLimiter {username : String} (h : node.spent username = true) :
    (node.updateTrafficLimiter limiter).spent username = true := by
  obtain heq | ⟨_, strategies, heq⟩ := updateTrafficLimiter_cases node limiter
  · rwa [heq]
  · rw [heq]
    simp only [spent, Option.all_eq_true, decide_eq_true_eq] at h ⊢
    intro object hobject l hl
    rcases Nat.lt_trichotomy object node.objects.length with hlt | rfl | hgt
    · rw [getElem?_append_left hlt] at hl
      rw [Function.update_apply] at hobject
      split_ifs at hobject
      · cases hobject
        omega
      · exact h object hobject l hl
    · obtain rfl : _ = l := by simpa using hl
      rfl
    · rw [getElem?_eq_none (by simp; omega)] at hl
      cases hl

theorem spares_updateTrafficLimiter {other : LimiterRecord} (h : node.spares other = true) :
    (node.updateTrafficLimiter limiter).spares other = true := by
  simp only [spares, Bool.or_eq_true] at h ⊢
  exact h.imp_right spent_updateTrafficLimiter

theorem Tidy.updateTrafficLimiter (ht : node.Tidy) (h : node.spares limiter = true) :
    (node.updateTrafficLimiter limiter).Tidy := by
  obtain heq | ⟨hok, strategies, heq⟩ := updateTrafficLimiter_cases node limiter
  · rwa [heq]
  have hspent : node.spent limiter.username = true := by simpa [spares, hok] using h
  rw [heq]
  constructor
  · intro username object hobject
    simp only [Function.update_apply] at hobject
    split_ifs at hobject with hname
    · cases hobject
      exact ⟨.newTrafficLimiter limiter, by simp, hname.symm⟩
    · obtain ⟨l, hl, hlname⟩ := ht.named username object hobject
      have hlt := getElem?_lt hl
      exact ⟨l, by rw [getElem?_append_left hlt, hl], hlname⟩
  · intro object l hl hfree
    rw [registered_eq hl] at hfree
    simp only [Function.update_apply] at hl hfree
    by_cases hlt : object < node.objects.length
    · rw [getElem?_append_left hlt] at hl
      cases hreg : node.registered object with
      | false => exact ht.idle object l hl hreg
      | true =>
        -- registered before and not any more: its user is the one updated
        rw [registered_eq hl, decide_eq_true_eq] at hreg
        split_ifs at hfree with hname
        · simp only [spent, Option.all_eq_true, decide_eq_true_eq] at hspent
          exact hspent object (hname ▸ hreg) l hl
        · simp [hreg] at hfree
    · rw [getElem?_append_right (by omega)] at hl
      obtain ⟨_, rfl⟩ := List.getElem?_eq_some_iff.mp hl
      simp [TrafficLimiter.newTrafficLimiter]

theorem Tidy.foldl (limiters : List LimiterRecord) :
    ∀ {node : Node}, node.Tidy → (∀ limiter ∈ limiters, node.spares limiter = true) →
      (limiters.foldl Node.updateTrafficLimiter node).Tidy ∧
      (limiters.foldl Node.updateTrafficLimiter node).report = node.report ∧
      ∀ id, (limiters.foldl Node.updateTrafficLimiter node).pending id = node.pending id := by
  induction limiters with
  | nil => exact fun ht _ => ⟨ht, rfl, fun _ => rfl⟩
  | cons limiter limiters ih =>
    intro node ht h
    rw [forall_mem_cons] at h
    obtain ⟨htidy, hreport, hpending⟩ :=
      ih (ht.updateTrafficLimiter h.1) fun other hother => spares_updateTrafficLimiter (h.2 other hother)
    refine ⟨htidy, hreport.trans updateTrafficLimiter_report, fun id => ?_⟩
    exact (hpending id).trans (updateTrafficLimiter_pending id)

theorem Tidy.strategies (ht : node.Tidy) (strategies : String → Option TrafficStrategy) :
    Tidy { node with strategiesMap := strategies } := ⟨ht.named, ht.idle⟩

end

end Node

end Hydracore.Traffic
