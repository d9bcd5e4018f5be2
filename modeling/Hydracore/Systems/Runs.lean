import Mathlib.Data.List.Basic
import Mathlib.Order.WellFounded

namespace Hydracore.Systems

open Option

variable {σ α : Type}

theorem bind_map_eq_some {β γ : Type} {x : Option α} {f : α → Option β} {g : α → β → γ} {c : γ}
    (h : (x.bind fun a => (f a).map (g a)) = some c) : ∃ a, x = some a ∧ ∃ b, f a = some b ∧ g a b = c := by
  obtain ⟨a, ha, h⟩ := bind_eq_some_iff.mp h
  exact ⟨a, ha, map_eq_some_iff.mp h⟩

inductive Run (step : σ → α → Option σ) (cond : σ → α → Prop) (s : σ) : List α → σ → Prop
  | nil : Run step cond s [] s
  | snoc {t u : σ} {as : List α} {a : α} (before : Run step cond s as t) (met : cond t a)
      (taken : step t a = some u) : Run step cond s (as ++ [a]) u

def anyStep : σ → α → Prop := fun _ _ => True

def exec (step : σ → α → Option σ) : σ → List α → Option σ
  | s, [] => some s
  | s, a :: as => (step s a).bind (fun t => exec step t as)

def execWhile (step : σ → α → Option σ) (cond : σ → α → Bool) : σ → List α → Option σ
  | s, [] => some s
  | s, a :: as => if cond s a then (step s a).bind (fun t => execWhile step cond t as) else none

theorem exec_concat (step : σ → α → Option σ) (s : σ) (as : List α) (a : α) :
    exec step s (as ++ [a]) = (exec step s as).bind fun t => step t a := by
  induction as generalizing s with
  | nil => simp [exec]
  | cons b as ih => simp only [List.cons_append, exec, ih, bind_assoc]

theorem execWhile_concat (step : σ → α → Option σ) (cond : σ → α → Bool) (s : σ) (as : List α) (a : α) :
    execWhile step cond s (as ++ [a]) =
      (execWhile step cond s as).bind fun t => if cond t a then step t a else none := by
  induction as generalizing s with
  | nil => simp [execWhile]
  | cons b as ih =>
    simp only [List.cons_append, execWhile]
    split_ifs
    · simp only [ih, bind_assoc]
    · rfl

variable {as : List α} {s u : σ}

theorem exec_of_execWhile {step : σ → α → Option σ} {cond : σ → α → Bool}
    (h : execWhile step cond s as = some u) : exec step s as = some u := by
  induction as generalizing s with
  | nil => exact h
  | cons a as ih =>
    simp only [execWhile] at h
    split_ifs at h
    obtain ⟨t, ht, hu⟩ := bind_eq_some_iff.mp h
    rw [exec, ht, bind_some]
    exact ih hu

variable {step : σ → α → Option σ} {cond : σ → α → Prop} {P I : σ → Prop}

theorem Run.invariant
    (hstep : ∀ {t a v}, P t → cond t a → step t a = some v → P v) (h : Run step cond s as u) (h0 : P s) : P u := by
  induction h with
  | nil => exact h0
  | snoc before met taken ih => exact hstep ih met taken

theorem Run.head {s t u : σ} {a : α} (met : cond s a) (taken : step s a = some t)
    (h : Run step cond t as u) : Run step cond s (a :: as) u := by
  induction h with
  | nil => simpa using Run.snoc .nil met taken
  | snoc before met' taken' ih => exact .snoc ih met' taken'

theorem Run.of_exec (h : exec step s as = some u) : Run step anyStep s as u := by
  induction as generalizing s with
  | nil =>
    obtain rfl : s = u := by simpa only [exec, some.injEq] using h
    exact .nil
  | cons a as ih =>
    obtain ⟨t, ht, hu⟩ := bind_eq_some_iff.mp h
    exact .head trivial ht (ih hu)

theorem Run.of_execWhile {cond : σ → α → Bool} (h : execWhile step cond s as = some u) :
    Run step (cond · ·) s as u := by
  induction as generalizing s with
  | nil =>
    obtain rfl : s = u := by simpa only [execWhile, some.injEq] using h
    exact .nil
  | cons a as ih =>
    simp only [execWhile] at h
    split_ifs at h with hmet
    obtain ⟨t, ht, hu⟩ := bind_eq_some_iff.mp h
    exact .head hmet ht (ih hu)

theorem exists_some_of_decide {o : Option σ} [DecidablePred P] (h : o.any (fun u => decide (P u)) = true) :
    ∃ u, o = some u ∧ P u := by
  obtain ⟨u, hu, hp⟩ := (any_eq_true _ _).mp h
  exact ⟨u, hu, of_decide_eq_true hp⟩

theorem exists_pair_of_decide {o : Option σ} {f : σ → Option σ} {P : σ → σ → Prop} [∀ u, DecidablePred (P u)]
    (h : o.any (fun u => (f u).any fun v => decide (P u v)) = true) : ∃ u v, o = some u ∧ f u = some v ∧ P u v := by
  obtain ⟨u, hu, h⟩ := (any_eq_true _ _).mp h
  obtain ⟨v, hv⟩ := exists_some_of_decide h
  exact ⟨u, v, hu, hv⟩

theorem Run.exists_of_decide [DecidablePred P] {s : σ}
    (h : (exec step s as).any (fun u => decide (P u)) = true) : ∃ u, Run step anyStep s as u ∧ P u :=
  (exists_some_of_decide h).imp fun _ hu => ⟨.of_exec hu.1, hu.2⟩

theorem Run.exists_of_decideWhile {cond : σ → α → Bool} [DecidablePred P] {s : σ}
    (h : (execWhile step cond s as).any (fun u => decide (P u)) = true) : ∃ u, Run step (cond · ·) s as u ∧ P u :=
  (exists_some_of_decide h).imp fun _ hu => ⟨.of_execWhile hu.1, hu.2⟩

/-- Whatever steps are taken, one of the states meets `P`, and until then there is a step to take. -/
inductive Inevitable (step : σ → α → Option σ) (cond : σ → α → Prop) (P : σ → Prop) : σ → Prop
  | now {s : σ} (holds : P s) : Inevitable step cond P s
  | later {s : σ} (enabled : ∃ a t, cond s a ∧ step s a = some t)
      (all : ∀ a t, cond s a → step s a = some t → Inevitable step cond P t) : Inevitable step cond P s

theorem Inevitable.of_weight {β : Type} [LT β] [WellFoundedLT β] (weight : σ → β)
    (hkeep : ∀ s a t, I s → cond s a → step s a = some t → I t)
    (hless : ∀ s a t, I s → cond s a → step s a = some t → weight t < weight s)
    (henabled : ∀ s, I s → P s ∨ ∃ a t, cond s a ∧ step s a = some t) {s : σ} (h : I s) :
    Inevitable step cond P s := by
  induction hw : weight s using WellFoundedLT.induction generalizing s with
  | ind w ih =>
    obtain hP | hex := henabled s h
    · exact .now hP
    · refine .later hex fun a t ha ht => ?_
      exact ih (weight t) (hw ▸ hless s a t h ha ht) (hkeep s a t h ha ht) rfl

end Hydracore.Systems
