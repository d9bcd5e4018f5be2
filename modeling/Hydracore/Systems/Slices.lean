import Mathlib.Data.List.Basic

namespace Hydracore.Systems

open List Option

variable {α : Type}

abbrev Memory (α : Type) := List (List α)

structure Slice where
  array : ℕ
  len : ℕ

def Memory.slot (m : Memory α) (array j : ℕ) : Option α := (m[array]?).bind (·[j]?)

namespace Slice

def read (m : Memory α) (s : Slice) : List α := ((m[s.array]?).getD []).take s.len

def truncate (s : Slice) : Slice := { s with len := 0 }

def shift (len i : ℕ) (row : List α) : List α :=
  row.take i ++ (row.drop (i + 1)).take (len - (i + 1)) ++ row.drop (len - 1)

def remove (m : Memory α) (s : Slice) (i : ℕ) : Memory α × Slice :=
  (m.modify s.array (shift s.len i), { s with len := s.len - 1 })

def append (grow : ℕ → ℕ) (filler : α) (m : Memory α) (s : Slice) (a : α) : Memory α × Slice :=
  if s.len < ((m[s.array]?).getD []).length then
    (m.modify s.array (·.set s.len a), { s with len := s.len + 1 })
  else
    (m ++ [s.read m ++ a :: List.replicate (grow (s.len + 1) - (s.len + 1)) filler], ⟨m.length, s.len + 1⟩)

end Slice

def Memory.Keeps (array limit : ℕ) (m m' : Memory α) : Prop :=
  ∀ b j x, (b ≠ array ∨ limit ≤ j) → m.slot b j = some x → m'.slot b j = some x

namespace Memory.Keeps

variable {m m' m'' : Memory α} {array limit : ℕ}

theorem refl (m : Memory α) : Keeps array limit m m := fun _ _ _ _ h => h

theorem trans (h : Keeps array limit m m') (h' : Keeps array limit m' m'') : Keeps array limit m m'' :=
  fun b j x hb hx => h' b j x hb (h b j x hb hx)

theorem mono {limit' : ℕ} (h : Keeps array limit m m') (hle : limit ≤ limit') : Keeps array limit' m m' :=
  fun b j x hb hx => h b j x (hb.imp_right (Nat.le_trans hle)) hx

end Memory.Keeps

variable {f : List α → List α} {m : Memory α}

theorem Memory.slot_modify_self {array j : ℕ} :
    Memory.slot (m.modify array f) array j = (m[array]?).bind fun row => (f row)[j]? := by
  rw [slot, getElem?_modify]
  cases m[array]? <;> simp

theorem Memory.slot_modify_of_ne {array b j : ℕ} (h : b ≠ array) :
    Memory.slot (m.modify array f) b j = m.slot b j := by
  simp only [slot, getElem?_modify, h.symm, ↓reduceIte, id_map']

theorem Memory.keeps_modify {array limit : ℕ}
    (h : ∀ row, m[array]? = some row → ∀ j, limit ≤ j → (f row)[j]? = row[j]?) :
    Memory.Keeps array limit m (m.modify array f) := by
  intro b j x hb hx
  by_cases hne : b = array
  · subst b
    obtain ⟨row, hrow, hj⟩ := bind_eq_some_iff.mp hx
    rw [slot_modify_self, hrow, bind_some, h row hrow j (hb.resolve_left (fun hne => hne rfl)), hj]
  · rw [slot_modify_of_ne hne, hx]

namespace Slice

variable {m : Memory α} {s : Slice} {p : α → Prop}

def Holds (p : α → Prop) (m : Memory α) (s : Slice) : Prop := ∀ j < s.len, ∃ x, m.slot s.array j = some x ∧ p x

theorem holds_truncate : Holds p m s.truncate := fun j hj => absurd hj (Nat.not_lt_zero j)

theorem getElem?_read {j : ℕ} (hj : j < s.len) : (s.read m)[j]? = m.slot s.array j := by
  rw [read, getElem?_take_of_lt hj, Memory.slot]
  cases m[s.array]? <;> simp

theorem length_read_le : (s.read m).length ≤ s.len := length_take_le _ _

theorem getElem?_shift {len i j : ℕ} {row : List α} (hi : i < len) (hlen : len ≤ row.length) :
    (shift len i row)[j]? = if i ≤ j ∧ j < len - 1 then row[j + 1]? else row[j]? := by
  unfold shift
  have htake : (row.take i).length = i := by simp; omega
  have hmid : ((row.drop (i + 1)).take (len - (i + 1))).length = len - (i + 1) := by simp; omega
  rcases Nat.lt_or_ge j i with hji | hij
  · rw [if_neg (by omega), append_assoc, getElem?_append_left (by omega), getElem?_take_of_lt hji]
  · rw [append_assoc, getElem?_append_right (by omega), htake]
    rcases Nat.lt_or_ge j (len - 1) with hjl | hlj
    · rw [if_pos ⟨hij, hjl⟩, getElem?_append_left (by omega), getElem?_take_of_lt (by omega), getElem?_drop]
      congr 1
      omega
    · rw [if_neg (by omega), getElem?_append_right (by omega), hmid, getElem?_drop]
      congr 1
      omega

variable {grow : ℕ → ℕ} {filler : α}

theorem append_keeps (a : α) : Memory.Keeps s.array (s.len + 1) m (s.append grow filler m a).1 := by
  unfold append
  split_ifs
  · apply Memory.keeps_modify
    intro row _ j hj
    rw [getElem?_set_ne (by omega)]
  · intro b j x _ hx
    obtain ⟨row, hrow, hj⟩ := bind_eq_some_iff.mp hx
    rw [Memory.slot, getElem?_append_left (List.getElem?_eq_some_iff.mp hrow).1, hrow, bind_some, hj]

variable {i j : ℕ} (h : Holds p m s)

include h

theorem Holds.mono {q : α → Prop} (hpq : ∀ x, p x → q x) : Holds q m s := by
  intro j hj
  obtain ⟨x, hx, hp⟩ := h j hj
  exact ⟨x, hx, hpq x hp⟩

theorem Holds.length_read : (s.read m).length = s.len := by
  apply Nat.le_antisymm length_read_le
  by_contra hlt
  obtain ⟨x, hx, -⟩ := h (s.read m).length (by omega)
  rw [← getElem?_read (by omega), getElem?_eq_none (Nat.le_refl _)] at hx
  cases hx

theorem Holds.of_mem_read {x : α} (hx : x ∈ s.read m) : p x := by
  obtain ⟨j, hj⟩ := mem_iff_getElem?.mp hx
  have hlt : j < s.len := Nat.lt_of_lt_of_le (List.getElem?_eq_some_iff.mp hj).1 length_read_le
  obtain ⟨y, hy, hp⟩ := h j hlt
  rw [getElem?_read hlt, hy] at hj
  exact some.inj hj ▸ hp

theorem Holds.row_long {row : List α} (hrow : m[s.array]? = some row) : s.len ≤ row.length := by
  have hlen := h.length_read
  rw [read, hrow, getD_some, length_take] at hlen
  omega

theorem Holds.remove_keeps (hi : i < s.len) : Memory.Keeps s.array s.len m (s.remove m i).1 := by
  apply Memory.keeps_modify
  intro row hrow j hj
  rw [getElem?_shift hi (h.row_long hrow), if_neg (by omega)]

theorem Holds.slot_remove (hi : i < s.len) (hj : j < s.len - 1) :
    (s.remove m i).1.slot s.array j = if i ≤ j then m.slot s.array (j + 1) else m.slot s.array j := by
  rw [Slice.remove, Memory.slot_modify_self, Memory.slot, Memory.slot]
  cases hrow : m[s.array]? with
  | none => simp
  | some row =>
    simp only [bind_some, getElem?_shift hi (h.row_long hrow), hj, and_true]

theorem Holds.remove (hi : i < s.len) : Holds p (s.remove m i).1 (s.remove m i).2 := by
  intro j hj
  have hjlt : j < s.len - 1 := hj
  change ∃ x, (s.remove m i).1.slot s.array j = some x ∧ p x
  rw [h.slot_remove hi hjlt]
  split_ifs
  · exact h (j + 1) (by omega)
  · exact h j (by omega)

theorem Holds.append {a : α} (ha : p a) :
    Holds p (s.append grow filler m a).1 (s.append grow filler m a).2 := by
  intro j hj
  unfold Slice.append at hj ⊢
  split_ifs at hj ⊢ with hcap
  · simp only at hj ⊢
    rw [Memory.slot_modify_self]
    cases hrow : m[s.array]? with
    | none => simp [hrow] at hcap
    | some row =>
      rw [bind_some, getElem?_set]
      rw [hrow, getD_some] at hcap
      split_ifs with heq
      · exact ⟨a, rfl, ha⟩
      · obtain ⟨x, hx, hp⟩ := h j (by omega)
        rw [Memory.slot, hrow] at hx
        exact ⟨x, hx, hp⟩
  · simp only at hj ⊢
    rw [Memory.slot, getElem?_append_right (Nat.le_refl _), Nat.sub_self]
    simp only [getElem?_cons_zero, bind_some]
    have hlen := h.length_read
    rcases Nat.lt_or_ge j s.len with hlt | hge
    · obtain ⟨x, hx, hp⟩ := h j hlt
      exact ⟨x, by rw [getElem?_append_left (by omega), getElem?_read hlt, hx], hp⟩
    · obtain rfl : j = s.len := by omega
      exact ⟨a, by rw [getElem?_append_right (by omega), hlen, Nat.sub_self]; rfl, ha⟩

end Slice

end Hydracore.Systems
