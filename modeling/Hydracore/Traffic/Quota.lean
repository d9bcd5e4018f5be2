import Hydracore.Systems.Runs
import Hydracore.Traffic.Limiter

namespace Hydracore.Traffic

open Systems Option TrafficLimiter

structure Report where
  amount : UInt64
  recorded : ℕ

structure Meter where
  limiter : TrafficLimiter
  report : Option Report
  reported : ℕ
  returned : ℕ
  recorded : ℕ

inductive Action where
  | can (n : UInt64)
  | add (n : UInt64)
  | take
  | returns (newUsed : UInt64)
  | fails (err : String)

namespace Meter

def start (limiter : LimiterRecord) : Meter where
  limiter := .newTrafficLimiter limiter
  report := none
  reported := 0
  returned := limiter.rawUsed.toNat
  recorded := 0

def record (m : Meter) (after : TrafficLimiter) : Meter :=
  { m with
    limiter := after
    report := m.report.map fun report =>
      { report with recorded := report.recorded + m.limiter.recorded after }
    recorded := m.recorded + m.limiter.recorded after }

def step (m : Meter) : Action → Option Meter
  | .can n => if n.toNat < 2 ^ 32 then some (m.record (m.limiter.can n).1) else none
  | .add n => if n.toNat < 2 ^ 32 then some (m.record (m.limiter.add n).1) else none
  | .take =>
    if m.report.isSome || m.limiter.new = 0 then none
    else some { m with limiter := m.limiter.take, report := some ⟨m.limiter.new, 0⟩ }
  | .returns newUsed =>
    match m.report with
    | none => none
    | some report =>
      if m.reported + report.amount.toNat ≤ newUsed.toNat ∧ newUsed ≤ m.limiter.rawQuota then
        some {
          limiter := m.limiter.settle report.amount (.ok newUsed)
          report := none
          reported := m.reported + report.amount.toNat
          returned := newUsed.toNat
          recorded := report.recorded }
      else none
  | .fails err =>
    match m.report with
    | none => none
    | some report => some { m with limiter := m.limiter.settle report.amount (.error err), report := none }

def undisturbed (m : Meter) : Action → Bool
  | .can n | .add n => m.limiter.rawUsed = m.limiter.rawQuota || m.limiter.rawUsed.toNat + n.toNat < 2 ^ 64
  | .returns _ => m.limiter.new = 0
  | .take | .fails _ => true

def ChargeFits (l : TrafficLimiter) (n : UInt64) : Prop :=
  l.rawUsed ≠ l.rawQuota → l.rawUsed.toNat + n.toNat < 2 ^ 64 ∧ (l.rawQuota < l.rawUsed + n →
      l.rawUsed ≤ l.rawQuota ∧ l.new.toNat + (l.rawQuota - l.rawUsed).toNat < 2 ^ 64)

def Fits (m : Meter) : Action → Prop
  | .can n => ChargeFits m.limiter n
  | .add n => ChargeFits m.limiter n ∧
    (m.limiter.rawUsed ≠ m.limiter.rawQuota → m.limiter.rawUsed + n ≤ m.limiter.rawQuota →
      m.limiter.new.toNat + n.toNat < 2 ^ 64)
  | .fails _ => ∀ report ∈ m.report, m.limiter.new.toNat + report.amount.toNat < 2 ^ 64
  | .take | .returns _ => True

def inFlight (m : Meter) : ℕ := (m.report.map fun report => report.amount.toNat).getD 0

structure Sound (limiter : LimiterRecord) (m : Meter) : Prop where
  quota : m.limiter.rawQuota = limiter.rawQuota
  within : m.limiter.rawUsed ≤ m.limiter.rawQuota
  used : m.returned + m.recorded ≤ m.limiter.rawUsed.toNat
  recorded : m.recorded = m.limiter.new.toNat + m.inFlight
  during : ∀ report ∈ m.report, report.recorded = m.limiter.new.toNat

section

variable {limiter : LimiterRecord} {m : Meter}

theorem Sound.start (h : limiter.rawUsed ≤ limiter.rawQuota) : Sound limiter (start limiter) where
  quota := rfl
  within := h
  used := le_refl _
  recorded := rfl
  during := by rintro report ⟨⟩

theorem inFlight_record (after : TrafficLimiter) : (m.record after).inFlight = m.inFlight := by
  cases h : m.report <;> simp [inFlight, record, h]

section

variable (h : Sound limiter m)
include h

theorem Sound.record {after : TrafficLimiter} (hquota : after.rawQuota = m.limiter.rawQuota)
    (hwithin : after.rawUsed ≤ after.rawQuota)
    (hused : m.limiter.rawUsed.toNat + m.limiter.recorded after ≤ after.rawUsed.toNat)
    (hnew : after.new.toNat = m.limiter.new.toNat + m.limiter.recorded after) : Sound limiter (m.record after) where
  quota := hquota.trans h.quota
  within := hwithin
  used := by
    have := h.used
    simp only [Meter.record]
    omega
  recorded := by
    have := h.recorded
    rw [inFlight_record]
    simp only [Meter.record]
    omega
  during := by
    intro report hreport
    obtain ⟨report₀, h₀, rfl⟩ := mem_map.mp hreport
    have := h.during report₀ h₀
    simp only [Meter.record]
    omega

theorem Sound.new_le : m.limiter.new.toNat + m.inFlight ≤ m.limiter.rawUsed.toNat := by
  have := h.used
  have := h.recorded
  omega

theorem Sound.record_self : Sound limiter (m.record m.limiter) := by
  apply h.record rfl h.within <;> simp

theorem Sound.record_exhaust : Sound limiter (m.record m.limiter.exhaust) := by
  have hle := UInt64.le_iff_toNat_le.mp h.within
  have hdiff := UInt64.toNat_sub_of_le _ _ h.within
  have hnew := h.new_le
  have hlt := m.limiter.rawQuota.toNat_lt
  apply h.record
  · simp
  · simp
  · simp only [recorded_exhaust, exhaust_rawUsed]
    omega
  · simp only [recorded_exhaust, exhaust_new, UInt64.toNat_add]
    rw [Nat.mod_eq_of_lt (by omega)]

theorem Sound.record_charge {n : UInt64} (hfit : m.limiter.rawUsed.toNat + n.toNat < 2 ^ 64)
    (hle : m.limiter.rawUsed + n ≤ m.limiter.rawQuota) : Sound limiter (m.record (m.limiter.charge n)) := by
  have hnew := h.new_le
  apply h.record
  · simp
  · simpa using hle
  · simp only [recorded_charge, charge_rawUsed, UInt64.toNat_add]
    rw [Nat.mod_eq_of_lt hfit]
  · simp only [recorded_charge, charge_new, UInt64.toNat_add]
    rw [Nat.mod_eq_of_lt (by omega)]

theorem Sound.can (n : UInt64) : Sound limiter (m.record (m.limiter.can n).1) := by
  rcases m.limiter.check_cases m.limiter n with heq | ⟨_, _, heq⟩ | ⟨_, _, heq⟩
  · rw [TrafficLimiter.can, heq]
    exact h.record_self
  · rw [TrafficLimiter.can, heq]
    exact h.record_exhaust
  · rw [TrafficLimiter.can, heq]
    exact h.record_self

theorem Sound.add {n : UInt64} (hmet : m.undisturbed (.add n) = true) :
    Sound limiter (m.record (m.limiter.add n).1) := by
  simp only [undisturbed, Bool.or_eq_true, decide_eq_true_eq] at hmet
  rcases m.limiter.check_cases (m.limiter.charge n) n with heq | ⟨_, _, heq⟩ | ⟨hfull, hle, heq⟩
  · rw [TrafficLimiter.add, heq]
    exact h.record_self
  · rw [TrafficLimiter.add, heq]
    exact h.record_exhaust
  · rw [TrafficLimiter.add, heq]
    exact h.record_charge (hmet.resolve_left hfull) hle

theorem Sound.step {a : Action} {m' : Meter} (hmet : m.undisturbed a = true)
    (hstep : m.step a = some m') : Sound limiter m' := by
  cases a with
  | can n =>
    obtain ⟨_, ⟨⟩⟩ := ite_none_right_eq_some.mp hstep
    exact h.can n
  | add n =>
    obtain ⟨_, ⟨⟩⟩ := ite_none_right_eq_some.mp hstep
    exact h.add hmet
  | take =>
    obtain ⟨hidle, ⟨⟩⟩ := ite_none_left_eq_some.mp hstep
    have hnone : m.report = none := by
      cases hreport : m.report <;> simp [hreport] at hidle ⊢
    have hrecorded := h.recorded
    simp only [inFlight, hnone, map_none, getD_none, Nat.add_zero] at hrecorded
    refine ⟨h.quota, h.within, h.used, ?_, ?_⟩
    · simpa [inFlight, take] using hrecorded
    · rintro report ⟨⟩
      rfl
  | returns newUsed =>
    cases hreport : m.report with
    | none => simp [Meter.step, hreport] at hstep
    | some report =>
      simp only [Meter.step, hreport] at hstep
      obtain ⟨⟨_, hle⟩, ⟨⟩⟩ := ite_none_right_eq_some.mp hstep
      have hnew : m.limiter.new = 0 := by simpa [undisturbed] using hmet
      have hduring : report.recorded = 0 := by simp [h.during report hreport, hnew]
      refine ⟨h.quota, hle, ?_, ?_, ?_⟩
      · simp [hduring, TrafficLimiter.settle, rawUsed]
      · simp [hduring, TrafficLimiter.settle, inFlight, hnew]
      · rintro report ⟨⟩
  | fails err =>
    cases hreport : m.report with
    | none => simp [Meter.step, hreport] at hstep
    | some report =>
      obtain rfl : _ = m' := by simpa only [Meter.step, hreport, some.injEq] using hstep
      have hle := h.new_le
      have hrecorded := h.recorded
      simp only [inFlight, hreport, map_some, getD_some] at hle hrecorded
      have hlt := m.limiter.rawUsed.toNat_lt
      refine ⟨h.quota, h.within, h.used, ?_, ?_⟩
      · simp only [TrafficLimiter.settle, UInt64.toNat_add]
        rw [Nat.mod_eq_of_lt (by omega)]
        exact hrecorded
      · rintro report ⟨⟩

theorem Sound.chargeFits {n : UInt64}
    (hmet : m.limiter.rawUsed = m.limiter.rawQuota ∨ m.limiter.rawUsed.toNat + n.toNat < 2 ^ 64) :
    ChargeFits m.limiter n := by
  intro hfull
  refine ⟨hmet.resolve_left hfull, fun _ => ⟨h.within, ?_⟩⟩
  have := UInt64.le_iff_toNat_le.mp h.within
  have := UInt64.toNat_sub_of_le _ _ h.within
  have := h.new_le
  have := m.limiter.rawQuota.toNat_lt
  omega

theorem Sound.fits {a : Action} (hmet : m.undisturbed a = true) : m.Fits a := by
  cases a with
  | can n =>
    simp only [undisturbed, Bool.or_eq_true, decide_eq_true_eq] at hmet
    exact h.chargeFits hmet
  | add n =>
    simp only [undisturbed, Bool.or_eq_true, decide_eq_true_eq] at hmet
    refine ⟨h.chargeFits hmet, fun hfull hle => ?_⟩
    have := hmet.resolve_left hfull
    have := h.new_le
    omega
  | take | returns newUsed => trivial
  | fails err =>
    intro report hreport
    have hle := h.new_le
    have := m.limiter.rawUsed.toNat_lt
    simp only [inFlight, mem_def.mp hreport, map_some, getD_some] at hle
    omega

end

end

theorem usage_accounted (limiter : LimiterRecord) (h : limiter.rawUsed ≤ limiter.rawQuota) {as : List Action} {m : Meter}
    (hrun : Run step (undisturbed · ·) (start limiter) as m) :
    m.limiter.rawQuota = limiter.rawQuota ∧ m.limiter.rawUsed ≤ m.limiter.rawQuota ∧
      m.returned + m.recorded ≤ m.limiter.rawUsed.toNat ∧ ∀ a, m.undisturbed a = true → m.Fits a := by
  have hsound : Sound limiter m :=
    hrun.invariant (fun ht => ht.step) (.start h)
  exact ⟨hsound.quota, hsound.within, hsound.used, fun a hmet => hsound.fits hmet⟩

def hundred : LimiterRecord := ⟨1, "user", "global", "upload", 0, 100⟩

theorem usage_accounted_hundred : ∃ m : Meter,
    Run step (undisturbed · ·) (start hundred) [.add 40, .take, .fails "lost", .add 10, .take, .returns 50, .add 20] m ∧
      m.returned = 50 ∧ m.recorded = 20 ∧ m.limiter.rawUsed ≤ 100 ∧ 70 ≤ m.limiter.rawUsed.toNat := by
  obtain ⟨m, hm⟩ := Option.isSome_iff_exists.mp (show (execWhile step undisturbed (start hundred)
    [.add 40, .take, .fails "lost", .add 10, .take, .returns 50, .add 20]).isSome = true by decide)
  have hrun := Run.of_execWhile hm
  obtain ⟨hquota, hwithin, hused, _⟩ := usage_accounted hundred (by decide) hrun
  cases hm
  exact ⟨_, hrun, rfl, rfl, hwithin, hused⟩

def greatest : LimiterRecord := ⟨1, "user", "global", "upload", 0xfffffffffffffffe, 0xffffffffffffffff⟩

theorem charge_forgotten : (∃ m : Meter, Run step anyStep (start hundred) [.add 40, .take, .add 10, .returns 40] m ∧
      m.limiter.rawUsed.toNat < m.returned + m.recorded) ∧
    ∃ m : Meter, Run step anyStep (start greatest) [.add 2] m ∧ ¬ (start greatest).Fits (.add 2) ∧
      m.limiter.rawUsed = 0 := by
  refine ⟨⟨_, Run.of_exec rfl, by decide⟩, _, Run.of_exec rfl, ?_, rfl⟩
  intro hfits
  have := (hfits.1 (by decide)).1
  exact absurd this (by decide)

end Meter

end Hydracore.Traffic
