import Mathlib.Data.Nat.Notation

namespace Hydracore.Systems

structure Notices where
  buffered : ℕ
  moving : Bool
  ready : ℕ

namespace Notices

def none : Notices := ⟨0, false, 0⟩

def pending (n : Notices) : Bool := 0 < n.buffered || n.moving || 0 < n.ready

def emit (size : ℕ) (n : Notices) : Notices := { n with buffered := min size (n.buffered + 1) }

def relay (n : Notices) : Option Notices :=
  if 0 < n.buffered ∧ n.moving = false then some { n with buffered := n.buffered - 1, moving := true } else Option.none

def deliver (size : ℕ) (n : Notices) : Option Notices :=
  if n.moving then some { n with moving := false, ready := min size (n.ready + 1) } else Option.none

def discard (n : Notices) : Option Notices := if n.moving then some { n with moving := false } else Option.none

def receive (n : Notices) : Option Notices := if 0 < n.ready then some { n with ready := n.ready - 1 } else Option.none

variable {n n' : Notices} {size : ℕ}

theorem pending_emit (h : 0 < size) : (n.emit size).pending = true := by
  have hpos : 0 < min size (n.buffered + 1) := by omega
  simp [pending, emit, hpos]

theorem pending_relay (h : n.relay = some n') : n'.pending = true := by
  obtain ⟨-, h⟩ := Option.ite_none_right_eq_some.mp h
  cases h
  simp [pending]

theorem pending_deliver (hsize : 0 < size) (h : n.deliver size = some n') : n'.pending = true := by
  obtain ⟨-, h⟩ := Option.ite_none_right_eq_some.mp h
  cases h
  have hpos : 0 < min size (n.ready + 1) := by omega
  simp [pending, hpos]

end Notices

end Hydracore.Systems
