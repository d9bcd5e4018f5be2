import Mathlib.Data.List.Forall2

namespace Hydracore.Systems

open List

variable {α β : Type} {S : α → β → Prop} {P Q : β → Prop} {xs : List α} {ys : List β}

theorem forall_mem_of_related (h : Forall₂ S xs ys) (hright : ∀ x ∈ xs, ∀ y, S x y → P y) : ∀ y ∈ ys, P y := by
  induction h with
  | nil => simp
  | @cons x y xs ys hxy _ ih =>
    rw [forall_mem_cons]
    constructor
    · exact hright x mem_cons_self y hxy
    · exact ih fun x hx => hright x (mem_cons_of_mem _ hx)

theorem exists_related (h : ∀ x ∈ xs, ∃ y, S x y ∧ Q y) : ∃ ys, Forall₂ S xs ys ∧ ∀ y ∈ ys, Q y := by
  induction xs with
  | nil => exact ⟨[], .nil, nofun⟩
  | cons x xs ih =>
    obtain ⟨y, hxy, hy⟩ := h x mem_cons_self
    obtain ⟨ys, hys, hall⟩ := ih fun x hx => h x (mem_cons_of_mem _ hx)
    exact ⟨y :: ys, .cons hxy hys, forall_mem_cons.mpr ⟨hy, hall⟩⟩

theorem exists_related_at {x : α} (hx : x ∈ xs) (hat : ∃ y, S x y ∧ P y) (h : ∀ x ∈ xs, ∃ y, S x y ∧ Q y) :
    ∃ before y after, Forall₂ S xs (before ++ y :: after) ∧ P y ∧ ∀ z ∈ before ++ after, Q z := by
  obtain ⟨y, hxy, hy⟩ := hat
  induction xs with
  | nil => simp at hx
  | cons first rest ih =>
    have hrest := fun x hx => h x (mem_cons_of_mem first hx)
    cases hx with
    | head =>
      obtain ⟨after, hafter, hall⟩ := exists_related hrest
      exact ⟨[], y, after, .cons hxy hafter, hy, hall⟩
    | tail _ hx =>
      obtain ⟨z, hz, hqz⟩ := h first mem_cons_self
      obtain ⟨before, y, after, hys, hy, hall⟩ := ih hx hrest
      exact ⟨z :: before, y, after, .cons hz hys, hy, forall_mem_cons.mpr ⟨hqz, hall⟩⟩

variable {b : β → Bool} {before after : List β} {y : β}

theorem all_of_others (h : ∀ z ∈ before ++ after, b z = true) : (before ++ y :: after).all b = b y := by
  rw [forall_mem_append] at h
  rw [all_append, all_cons, all_eq_true.mpr h.1, all_eq_true.mpr h.2, Bool.true_and, Bool.and_true]

theorem any_of_others (h : ∀ z ∈ before ++ after, b z = false) : (before ++ y :: after).any b = b y := by
  rw [forall_mem_append] at h
  have hbefore : before.any b = false := any_eq_false.mpr fun z hz => by simp [h.1 z hz]
  have hafter : after.any b = false := any_eq_false.mpr fun z hz => by simp [h.2 z hz]
  rw [any_append, any_cons, hbefore, hafter, Bool.false_or, Bool.or_false]

variable {v : Bool}

theorem all_of_constant (hys : ys ≠ []) (h : ∀ y ∈ ys, b y = v) : ys.all b = v := by
  cases ys with
  | nil => contradiction
  | cons y ys => cases v <;> simp_all

theorem any_of_constant (hys : ys ≠ []) (h : ∀ y ∈ ys, b y = v) : ys.any b = v := by
  cases ys with
  | nil => contradiction
  | cons y ys => cases v <;> simp_all

end Hydracore.Systems
