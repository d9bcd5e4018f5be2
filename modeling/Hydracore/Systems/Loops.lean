import Mathlib.Data.Nat.Notation

namespace Hydracore.Systems

variable {σ ρ : Type}

def loop (body : σ → σ ⊕ ρ) : ℕ → σ → Option ρ
  | 0, _ => none
  | fuel + 1, s =>
    match body s with
    | .inl t => loop body fuel t
    | .inr r => some r

def Returns (body : σ → σ ⊕ ρ) (s : σ) (r : ρ) : Prop := ∃ fuel, loop body fuel s = some r

inductive Reaches (body : σ → σ ⊕ ρ) (s : σ) : σ → Prop
  | refl : Reaches body s s
  | turn {t u : σ} (before : Reaches body s t) (next : body t = .inl u) : Reaches body s u

variable {body : σ → σ ⊕ ρ} {s t : σ} {r r' : ρ}

theorem returns_of_inr (h : body s = .inr r) : Returns body s r := by
  refine ⟨1, ?_⟩
  simp only [loop, h]

theorem returns_of_inl (h : body s = .inl t) : Returns body s r ↔ Returns body t r := by
  constructor
  · rintro ⟨fuel, hfuel⟩
    cases fuel with
    | zero => cases hfuel
    | succ fuel =>
      simp only [loop, h] at hfuel
      exact ⟨fuel, hfuel⟩
  · rintro ⟨fuel, hfuel⟩
    refine ⟨fuel + 1, ?_⟩
    simp only [loop, h]
    exact hfuel

theorem Reaches.returns_iff (h : Reaches body s t) : Returns body s r ↔ Returns body t r := by
  induction h with
  | refl => exact Iff.rfl
  | turn _ next ih => exact ih.trans (returns_of_inl next)

theorem Reaches.eq_of_inr (h : body s = .inr r) (hreaches : Reaches body s t) : t = s := by
  induction hreaches with
  | refl => rfl
  | turn _ next ih =>
    rw [ih, h] at next
    cases next

theorem loop_unique {fuel fuel' : ℕ} (h : loop body fuel s = some r) (h' : loop body fuel' s = some r') : r = r' := by
  induction fuel generalizing fuel' s with
  | zero => cases h
  | succ fuel ih =>
    cases fuel' with
    | zero => cases h'
    | succ fuel' =>
      simp only [loop] at h h'
      split at h
      · next hbody =>
        simp only [hbody] at h'
        exact ih h h'
      · next hbody =>
        simp only [hbody] at h'
        exact (Option.some.inj h).symm.trans (Option.some.inj h')

theorem Returns.unique (h : Returns body s r) (h' : Returns body s r') : r = r' := by
  obtain ⟨fuel, hfuel⟩ := h
  obtain ⟨fuel', hfuel'⟩ := h'
  exact loop_unique hfuel hfuel'

theorem exists_exit (size : σ → ℕ) (h : ∀ t u, Reaches body s t → body t = .inl u → size u < size t) :
    ∃ t r, Reaches body s t ∧ body t = .inr r := by
  have hfrom : ∀ n t, size t = n → Reaches body s t → ∃ t r, Reaches body s t ∧ body t = .inr r := by
    intro n
    induction n using Nat.strongRecOn with
    | ind n ih =>
      intro t ht hreaches
      cases hbody : body t with
      | inl u => exact ih (size u) (ht ▸ h t u hreaches hbody) u rfl (hreaches.turn hbody)
      | inr r => exact ⟨t, r, hreaches, hbody⟩
  exact hfrom (size s) s rfl .refl

theorem not_returns {P : σ → Prop} (hturn : ∀ t, P t → ∃ u, body t = .inl u ∧ P u) (h : P s) : ¬Returns body s r := by
  rintro ⟨fuel, hfuel⟩
  induction fuel generalizing s with
  | zero => cases hfuel
  | succ fuel ih =>
    obtain ⟨u, hu, hP⟩ := hturn s h
    simp only [loop, hu] at hfuel
    exact ih hP hfuel

end Hydracore.Systems
