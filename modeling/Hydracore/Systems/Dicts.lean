import Mathlib.Data.List.AList

namespace Hydracore.Systems

open List

variable {κ ν : Type}

abbrev Dict (κ ν : Type) := AList (fun _ : κ => ν)

namespace Dict

def size (m : Dict κ ν) : ℕ := m.entries.length

def count (m : Dict κ ν) (p : κ → ν → Bool) : ℕ := m.entries.countP (fun e => p e.1 e.2)

@[simp] theorem count_empty (p : κ → ν → Bool) : count (∅ : Dict κ ν) p = 0 := rfl

@[simp] theorem size_empty : size (∅ : Dict κ ν) = 0 := rfl

theorem size_eq_count (m : Dict κ ν) : size m = count m (fun _ _ => true) := by
  simp [size, count]

variable [DecidableEq κ]

variable {k : κ} {m : Dict κ ν} {v : ν}

theorem countP_kerase {l : List (Sigma fun _ : κ => ν)} (p : κ → ν → Bool) (h : l.dlookup k = some v) :
    (l.kerase k).countP (fun e => p e.1 e.2) + (if p k v then 1 else 0) = l.countP (fun e => p e.1 e.2) := by
  induction l with
  | nil => simp at h
  | cons e l ih =>
    obtain ⟨k', v'⟩ := e
    by_cases hk : k = k'
    · subst k'
      obtain rfl : v' = v := by simpa using h
      simp only [kerase_cons_eq, countP_cons]
    · have ht := ih (by simpa only [dlookup_cons_ne l ⟨k', v'⟩ hk] using h)
      rw [kerase_cons_ne (by exact hk)]
      simp only [countP_cons]
      omega

theorem count_insert (h : m.lookup k = none) (v : ν) (p : κ → ν → Bool) :
    count (m.insert k v) p = count m p + if p k v then 1 else 0 := by
  rw [count, AList.entries_insert_of_notMem (AList.lookup_eq_none.mp h), countP_cons, count]

theorem count_erase (h : m.lookup k = some v) (p : κ → ν → Bool) :
    count (m.erase k) p + (if p k v then 1 else 0) = count m p :=
  countP_kerase p h

theorem size_insert (h : m.lookup k = none) (v : ν) : size (m.insert k v) = size m + 1 := by
  rw [size_eq_count, size_eq_count, count_insert h]
  rfl

theorem size_erase (h : m.lookup k = some v) : size (m.erase k) + 1 = size m := by
  simpa only [size_eq_count, if_true] using count_erase h (fun _ _ => true)

theorem count_congr {p q : κ → ν → Bool}
    (h : ∀ k v, m.lookup k = some v → p k v = q k v) : count m p = count m q := by
  apply countP_congr
  rintro ⟨k, v⟩ he
  rw [h k v (AList.mem_lookup_iff.mpr he)]

theorem count_pos {p : κ → ν → Bool} (h : m.lookup k = some v) (hp : p k v = true) : 0 < count m p := by
  have := count_erase h p
  rw [if_pos hp] at this
  omega

theorem lookup_erase_some {k j : κ} (h : (m.erase k).lookup j = some v) : j ≠ k ∧ m.lookup j = some v := by
  by_cases hj : j = k
  · subst j
    simp at h
  · exact ⟨hj, by simpa only [AList.lookup_erase_ne hj] using h⟩

theorem lookup_insert_some {k j : κ} {v w : ν} (h : (m.insert k w).lookup j = some v) :
    (j = k ∧ v = w) ∨ (j ≠ k ∧ m.lookup j = some v) := by
  by_cases hj : j = k
  · subst j
    left
    simpa [eq_comm] using h
  · exact .inr ⟨hj, by simpa only [AList.lookup_insert_ne hj] using h⟩

end Dict

end Hydracore.Systems
