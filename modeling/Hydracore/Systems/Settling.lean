import Mathlib.Data.List.Basic

namespace Hydracore.Systems

variable {α : Type}

def settle (delay : α → ℕ) (tolerance : ℕ) : Option α → List α → Option α
  | best, [] => best
  | none, x :: xs => settle delay tolerance (some x) xs
  | some b, x :: xs => settle delay tolerance (if delay x + tolerance < delay b then some x else some b) xs

variable {delay : α → ℕ} {tolerance : ℕ} {best : Option α} {b r : α} {xs : List α}

theorem settle_mem (h : settle delay tolerance best xs = some r) : r ∈ xs ∨ best = some r := by
  induction xs generalizing best with
  | nil => exact .inr h
  | cons x xs ih =>
    cases best with
    | none =>
      rcases ih h with hmem | heq
      · exact .inl (List.mem_cons_of_mem _ hmem)
      · exact .inl (Option.some.inj heq ▸ List.mem_cons_self)
    | some b =>
      rcases ih h with hmem | heq
      · exact .inl (List.mem_cons_of_mem _ hmem)
      · split_ifs at heq
        · exact .inl (Option.some.inj heq ▸ List.mem_cons_self)
        · exact .inr heq

theorem settle_le_start (h : settle delay tolerance (some b) xs = some r) : delay r ≤ delay b := by
  induction xs generalizing b with
  | nil =>
    cases h
    exact Nat.le_refl _
  | cons x xs ih =>
    rw [settle] at h
    split_ifs at h with hfaster
    · have hx := ih h
      omega
    · exact ih h

theorem settle_le (h : settle delay tolerance best xs = some r) : ∀ x ∈ xs, delay r ≤ delay x + tolerance := by
  induction xs generalizing best with
  | nil => nofun
  | cons y xs ih =>
    rw [List.forall_mem_cons]
    cases best with
    | none =>
      have hy := settle_le_start h
      exact ⟨by omega, ih h⟩
    | some b =>
      refine ⟨?_, ih h⟩
      -- either the walk goes on from `y`, or it had something at least nearly as good
      rw [settle] at h
      split_ifs at h with hfaster
      · have hy := settle_le_start h
        omega
      · have hb := settle_le_start h
        omega

theorem settle_keep (h : ∀ x ∈ xs, delay b ≤ delay x + tolerance) : settle delay tolerance (some b) xs = some b := by
  induction xs with
  | nil => rfl
  | cons x xs ih =>
    rw [List.forall_mem_cons] at h
    rw [settle, if_neg (by omega)]
    exact ih h.2

theorem exists_settle_some : ∃ r, settle delay tolerance (some b) xs = some r := by
  induction xs generalizing b with
  | nil => exact ⟨b, rfl⟩
  | cons x xs ih =>
    rw [settle]
    split_ifs
    · exact ih
    · exact ih

theorem exists_settle_of_mem {x : α} (hx : x ∈ xs) : ∃ r, settle delay tolerance best xs = some r := by
  cases xs with
  | nil => nomatch hx
  | cons y xs =>
    cases best with
    | none | some b => exact exists_settle_some

end Hydracore.Systems
