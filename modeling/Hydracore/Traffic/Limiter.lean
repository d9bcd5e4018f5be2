import Mathlib.Data.UInt

namespace Hydracore.Traffic

structure LimiterRecord where
  id : ℕ
  username : String
  strategy : String
  mode : String
  rawUsed : UInt64
  rawQuota : UInt64

structure TrafficLimiter where
  limiter : LimiterRecord
  new : UInt64

def trafficLimitExceeded : String := "traffic limit exceeded"

namespace TrafficLimiter

def rawUsed (l : TrafficLimiter) : UInt64 := l.limiter.rawUsed

def rawQuota (l : TrafficLimiter) : UInt64 := l.limiter.rawQuota

def newTrafficLimiter (limiter : LimiterRecord) : TrafficLimiter := ⟨limiter, 0⟩

section

variable (l : TrafficLimiter)

def exhaust : TrafficLimiter where
  limiter := { l.limiter with rawUsed := l.rawQuota }
  new := l.new + (l.rawQuota - l.rawUsed)

def charge (n : UInt64) : TrafficLimiter where
  limiter := { l.limiter with rawUsed := l.rawUsed + n }
  new := l.new + n

def check (n : UInt64) (within : TrafficLimiter) : TrafficLimiter × Except String Unit :=
  if l.rawUsed = l.rawQuota then (l, .error trafficLimitExceeded)
  else if l.rawUsed + n > l.rawQuota then (l.exhaust, .error trafficLimitExceeded)
  else (within, .ok ())

def can (n : UInt64) : TrafficLimiter × Except String Unit := l.check n l

def add (n : UInt64) : TrafficLimiter × Except String Unit := l.check n (l.charge n)

def take : TrafficLimiter := { l with new := 0 }

def settle (amount : UInt64) : Except String UInt64 → TrafficLimiter
  | .ok newUsed => { l with limiter := { l.limiter with rawUsed := newUsed } }
  | .error _ => { l with new := l.new + amount }

end

section

variable (l w : TrafficLimiter) (n : UInt64)

theorem check_cases : (l.check n w).1 = l ∨
      (l.rawUsed ≠ l.rawQuota ∧ l.rawQuota < l.rawUsed + n ∧ (l.check n w).1 = l.exhaust) ∨
      (l.rawUsed ≠ l.rawQuota ∧ l.rawUsed + n ≤ l.rawQuota ∧ (l.check n w).1 = w) := by
  unfold check
  split_ifs with hfull hover
  · exact .inl rfl
  · exact .inr (.inl ⟨hfull, hover, rfl⟩)
  · exact .inr (.inr ⟨hfull, UInt64.not_lt.mp hover, rfl⟩)

@[simp] theorem exhaust_rawUsed : l.exhaust.rawUsed = l.rawQuota := rfl

@[simp] theorem exhaust_rawQuota : l.exhaust.rawQuota = l.rawQuota := rfl

@[simp] theorem exhaust_new : l.exhaust.new = l.new + (l.rawQuota - l.rawUsed) := rfl

@[simp] theorem charge_rawUsed : (l.charge n).rawUsed = l.rawUsed + n := rfl

@[simp] theorem charge_rawQuota : (l.charge n).rawQuota = l.rawQuota := rfl

@[simp] theorem charge_new : (l.charge n).new = l.new + n := rfl

end

def recorded (before after : TrafficLimiter) : ℕ := (after.new - before.new).toNat

section

variable (l : TrafficLimiter) (n : UInt64)

@[simp] theorem recorded_self : l.recorded l = 0 := by
  simp [recorded]

@[simp] theorem recorded_exhaust : l.recorded l.exhaust = (l.rawQuota - l.rawUsed).toNat := by
  simp [recorded, exhaust]

@[simp] theorem recorded_charge : l.recorded (l.charge n) = n.toNat := by
  simp [recorded, charge]

end

end TrafficLimiter

end Hydracore.Traffic
