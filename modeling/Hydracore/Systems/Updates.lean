import Mathlib.Data.List.Basic

namespace Hydracore.Systems

open List

variable {α κ ν : Type} [DecidableEq κ]

def updateAll (selected : α → Bool) (key : α → κ) (value : α → ν) (entries : List α) (f : κ → ν) : κ → ν :=
  entries.foldl (fun g entry => if selected entry then Function.update g (key entry) (value entry) else g) f

variable {selected : α → Bool} {key : α → κ} {value : α → ν} {entries : List α} {f : κ → ν} {k : κ}

theorem updateAll_of_not (h : ∀ entry ∈ entries, selected entry = true → key entry ≠ k) :
    updateAll selected key value entries f k = f k := by
  induction entries generalizing f with
  | nil => rfl
  | cons entry entries ih =>
    rw [updateAll, foldl_cons, ← updateAll, ih fun e he => h e (mem_cons_of_mem _ he)]
    split_ifs with hentry
    · exact Function.update_of_ne (h entry mem_cons_self hentry).symm _ _
    · rfl

theorem updateAll_of_mem {v : ν} (hex : ∃ entry ∈ entries, selected entry = true ∧ key entry = k)
    (h : ∀ entry ∈ entries, selected entry = true → key entry = k → value entry = v) :
    updateAll selected key value entries f k = v := by
  induction entries generalizing f with
  | nil => simp at hex
  | cons entry entries ih =>
    have hrest := fun e he => h e (mem_cons_of_mem _ he)
    rw [updateAll, foldl_cons, ← updateAll]
    by_cases hlater : ∃ e ∈ entries, selected e = true ∧ key e = k
    · exact ih hlater hrest
    · -- nothing after the first entry writes at the key
      push Not at hlater
      obtain ⟨hentry, hkey⟩ : selected entry = true ∧ key entry = k := by
        obtain ⟨e, he, hselected, hkey⟩ := hex
        rcases mem_cons.mp he with rfl | he
        · exact ⟨hselected, hkey⟩
        · exact absurd hkey (hlater e he hselected)
      rw [updateAll_of_not hlater, if_pos hentry, ← hkey, Function.update_self]
      exact h entry mem_cons_self hentry hkey

end Hydracore.Systems
