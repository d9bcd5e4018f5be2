import Mathlib.Data.Finset.Card

/-!
Concurrent tasks are kept in a list whose positions are never reused: a task
moves by `List.set` and is spawned by appending. Ownership arguments count the
tasks with a property, so the two moves are described by their effect on counts.
-/

namespace Hydracore.Systems

open List Function

variable {τ : Type} {l l' : List τ} {a b : τ} {i : ℕ} {p : τ → Bool}

section Moves

variable (h : l[i]? = some a)
include h

theorem getElem?_lt : i < l.length := (List.getElem?_eq_some_iff.mp h).1

theorem exists_set : ∃ before after, l = before ++ a :: after ∧ ∀ b, l.set i b = before ++ b :: after := by
  obtain ⟨hi, hget⟩ := List.getElem?_eq_some_iff.mp h
  refine ⟨l.take i, l.drop (i + 1), ?_, fun b => ?_⟩
  · rw [← hget, getElem_cons_drop, take_append_drop]
  · rw [set_eq_take_append_cons_drop, if_pos hi]

theorem countP_set_add :
    (l.set i b).countP p + (if p a then 1 else 0) = l.countP p + (if p b then 1 else 0) := by
  obtain ⟨before, after, rfl, hset⟩ := exists_set h
  simp only [hset, countP_append, countP_cons]
  omega

theorem countP_set_spawn {o : Option τ} :
    (l.set i b ++ o.toList).countP p + (if p a then 1 else 0) =
      l.countP p + (if p b then 1 else 0) + (if o.any p then 1 else 0) := by
  have hset := countP_set_add (p := p) (b := b) h
  cases o with
  | none => simpa using hset
  | some x =>
    simp only [countP_append, Option.toList_some, countP_singleton, Option.any_some]
    omega

theorem modify_eq_set (f : τ → τ) : l.modify i f = l.set i (f a) := by
  apply ext_getElem?
  intro j
  rw [getElem?_modify, getElem?_set]
  split_ifs with hij hlt
  · rw [← hij, h]
    rfl
  · exact absurd (getElem?_lt h) hlt
  · exact id_map' _

theorem getElem?_append_of_some : (l ++ l')[i]? = some a := by
  rw [getElem?_append_left (getElem?_lt h), h]

theorem filter_set_of_not (ha : p a = false) (hb : p b = false) : (l.set i b).filter p = l.filter p := by
  obtain ⟨before, after, rfl, hset⟩ := exists_set h
  simp [hset, ha, hb]

theorem filter_set_of_singleton (ha : p a = true) (hb : p b = true) (hl : l.filter p = [a]) :
    (l.set i b).filter p = [b] := by
  obtain ⟨before, after, rfl, hset⟩ := exists_set h
  rw [filter_append, filter_cons_of_pos ha] at hl
  have hlength := congrArg length hl
  simp only [length_append, length_cons, length_nil] at hlength
  rw [hset, filter_append, filter_cons_of_pos hb, length_eq_zero_iff.mp (by omega : (before.filter p).length = 0),
    length_eq_zero_iff.mp (by omega : (after.filter p).length = 0), nil_append]

end Moves

theorem eq_of_countP_le_one (h : l.countP p ≤ 1) (ha : a ∈ l) (hb : b ∈ l)
    (hpa : p a = true) (hpb : p b = true) : a = b := by
  have ha' : a ∈ l.filter p := mem_filter.mpr ⟨ha, hpa⟩
  have hb' : b ∈ l.filter p := mem_filter.mpr ⟨hb, hpb⟩
  rw [countP_eq_length_filter] at h
  rcases hf : l.filter p with _ | ⟨x, _ | ⟨y, rest⟩⟩
  · rw [hf] at ha'
    cases ha'
  · rw [hf, mem_singleton] at ha' hb'
    exact ha'.trans hb'.symm
  · rw [hf] at h
    simp at h

theorem mem_set_or {x : τ} (h : x ∈ l) (i : ℕ) (a : τ) : x ∈ l.set i a ∨ l[i]? = some x := by
  obtain ⟨j, hj⟩ := mem_iff_getElem?.mp h
  by_cases hij : i = j
  · exact .inr (hij ▸ hj)
  · exact .inl (mem_of_getElem? ((getElem?_set_ne hij).trans hj))

theorem getElem?_set_cases {i j : ℕ} (h : (l.set i a)[j]? = some b) :
    (j = i ∧ b = a) ∨ (j ≠ i ∧ l[j]? = some b) := by
  rw [getElem?_set] at h
  split_ifs at h with heq
  · exact .inl ⟨heq.symm, (Option.some.inj h).symm⟩
  · exact .inr ⟨Ne.symm heq, h⟩

theorem getElem?_concat_cases (h : (l ++ [a])[i]? = some b) : l[i]? = some b ∨ (i = l.length ∧ b = a) := by
  rcases Nat.lt_trichotomy i l.length with hlt | rfl | hgt
  · exact .inl (by rwa [getElem?_append_left hlt] at h)
  · exact .inr ⟨rfl, by simpa using h.symm⟩
  · rw [getElem?_eq_none (by simp; omega)] at h
    cases h

theorem mem_concat_cases (h : b ∈ l ++ [a]) : b ∈ l ∨ b = a := by simpa using h

theorem forall_mem_concat {P : τ → Prop} (h : ∀ b ∈ l, P b) (ha : P a) : ∀ b ∈ l ++ [a], P b :=
  forall_mem_append.mpr ⟨h, forall_mem_singleton.mpr ha⟩

theorem forall_mem_set {P : τ → Prop} (h : ∀ b ∈ l, P b) (ha : P a) : ∀ b ∈ l.set i a, P b :=
  fun b hb => (mem_or_eq_of_mem_set hb).elim (h b) (· ▸ ha)

theorem flatten_run {tasks : List (List τ)} {rest : List τ} (h : tasks[i]? = some (a :: rest)) :
    ∃ before after, tasks.flatten = before ++ a :: after ∧ ∀ next (spawned : List (List τ)),
      (tasks.set i (next ++ rest) ++ spawned).flatten = before ++ next ++ after ++ spawned.flatten := by
  obtain ⟨before, after, rfl, hset⟩ := exists_set h
  refine ⟨before.flatten, rest ++ after.flatten, by simp, fun next spawned => ?_⟩
  rw [hset]
  simp

theorem filter_eraseP_of_disjoint {q : τ → Bool} (h : ∀ x, q x = true → p x = false) (l : List τ) :
    (l.eraseP q).filter p = l.filter p := by
  induction l with
  | nil => rfl
  | cons x l ih =>
    by_cases hx : q x = true
    · rw [eraseP_cons_of_pos hx, filter_cons_of_neg (by simp [h x hx])]
    · rw [eraseP_cons_of_neg hx, filter_cons, filter_cons, ih]

def total (f : τ → ℕ) : List τ → ℕ
  | [] => 0
  | x :: xs => f x + total f xs

theorem total_append (f : τ → ℕ) (l l' : List τ) : total f (l ++ l') = total f l + total f l' := by
  induction l with
  | nil => simp [total]
  | cons x xs ih =>
    simp only [cons_append, total, ih]
    omega

variable {f : τ → ℕ}

theorem total_set (h : l[i]? = some a) (b : τ) : total f (l.set i b) + f a = total f l + f b := by
  obtain ⟨before, after, rfl, hset⟩ := exists_set h
  simp only [hset, total_append, total]
  omega

theorem le_total (h : l[i]? = some a) : f a ≤ total f l := by
  obtain ⟨before, after, rfl, -⟩ := exists_set h
  simp only [total_append, total]
  omega

theorem total_eq_zero (h : ∀ a ∈ l, f a = 0) : total f l = 0 := by
  induction l with
  | nil => rfl
  | cons x xs ih => simp [total, h x, ih fun a ha => h a (mem_cons_of_mem _ ha)]

section Indexes

variable {κ ν : Type}

theorem update_eq_some [DecidableEq κ] {f : κ → Option ν} {k j : κ} {v : Option ν} {w : ν}
    (h : update f k v j = some w) : j = k ∧ v = some w ∨ j ≠ k ∧ f j = some w := by
  by_cases hj : j = k
  · rw [hj, update_self] at h
    exact .inl ⟨hj, h⟩
  · rw [update_of_ne hj] at h
    exact .inr ⟨hj, h⟩

/-- `f` has the value of each live task under the key of the task, and nothing else. -/
def Indexes (f : κ → Option ν) (live : τ → Bool) (key : τ → κ) (value : τ → ν) (l : List τ) : Prop :=
  ∀ k v, f k = some v ↔ ∃ (i : ℕ) (a : τ), l[i]? = some a ∧ live a = true ∧ key a = k ∧ value a = v

variable {f : κ → Option ν} {live : τ → Bool} {key : τ → κ} {value : τ → ν} (h : Indexes f live key value l)
include h

theorem Indexes.set (ha : l[i]? = some a) (hlive : live a = live b) (hkey : key a = key b)
    (hvalue : value a = value b) : Indexes f live key value (l.set i b) := by
  refine fun k v => (h k v).trans ⟨?_, ?_⟩
  · rintro ⟨j, c, hc, hrest⟩
    by_cases hj : i = j
    · subst hj
      cases ha.symm.trans hc
      exact ⟨i, b, getElem?_set_self (getElem?_lt ha), hlive ▸ hkey ▸ hvalue ▸ hrest⟩
    · exact ⟨j, c, (getElem?_set_ne hj).trans hc, hrest⟩
  · rintro ⟨j, c, hc, hrest⟩
    rcases getElem?_set_cases hc with ⟨rfl, rfl⟩ | ⟨-, hc⟩
    · exact ⟨j, a, ha, hlive ▸ hkey ▸ hvalue ▸ hrest⟩
    · exact ⟨j, c, hc, hrest⟩

variable [DecidableEq κ]

theorem Indexes.concat (ha : live a = true) (hnew : ∀ (i : ℕ) b, l[i]? = some b → live b = true → key b ≠ key a) :
    Indexes (update f (key a) (some (value a))) live key value (l ++ [a]) := by
  intro k v
  by_cases hk : k = key a
  · subst hk
    rw [update_self]
    constructor
    · rintro ⟨⟩
      exact ⟨l.length, a, getElem?_concat_length, ha, rfl, rfl⟩
    · rintro ⟨i, b, hb, hlive, hkey, rfl⟩
      rcases getElem?_concat_cases hb with hb | ⟨-, rfl⟩
      · exact absurd hkey (hnew i b hb hlive)
      · rfl
  · rw [update_of_ne hk, h k v]
    constructor
    · rintro ⟨i, b, hb, hrest⟩
      exact ⟨i, b, getElem?_append_of_some hb, hrest⟩
    · rintro ⟨i, b, hb, hrest⟩
      rcases getElem?_concat_cases hb with hb | ⟨-, rfl⟩
      · exact ⟨i, b, hb, hrest⟩
      · exact absurd hrest.2.1.symm hk

theorem Indexes.erase (ha : l[i]? = some a) (hdead : live b = false)
    (hunique : ∀ (j : ℕ) c, l[j]? = some c → live c = true → key c = key a → j = i) :
    Indexes (update f (key a) none) live key value (l.set i b) := by
  intro k v
  by_cases hk : k = key a
  · subst hk
    rw [update_self]
    refine ⟨nofun, ?_⟩
    rintro ⟨j, c, hc, hlive, hkey, -⟩
    rcases getElem?_set_cases hc with ⟨-, rfl⟩ | ⟨hj, hc⟩
    · exact absurd hlive (Bool.eq_false_iff.mp hdead)
    · exact absurd (hunique j c hc hlive hkey) hj
  · rw [update_of_ne hk, h k v]
    constructor
    · rintro ⟨j, c, hc, hrest⟩
      refine ⟨j, c, (getElem?_set_ne ?_).trans hc, hrest⟩
      rintro rfl
      exact hk (hrest.2.1.symm.trans (congrArg key (Option.some.inj (hc.symm.trans ha))))
    · rintro ⟨j, c, hc, hrest⟩
      rcases getElem?_set_cases hc with ⟨-, rfl⟩ | ⟨-, hc⟩
      · exact absurd hrest.1 (Bool.eq_false_iff.mp hdead)
      · exact ⟨j, c, hc, hrest⟩

end Indexes

end Hydracore.Systems
