import Mathlib.Data.List.Basic

namespace Hydracore.Systems

open List

variable {ε α β : Type}

def both {γ : Type} (f : α → β → γ) : Except (List ε) α → Except (List ε) β → Except (List ε) γ
  | .ok a, .ok b => .ok (f a b)
  | .ok _, .error es => .error es
  | .error es, .ok _ => .error es
  | .error es, .error fs => .error (es ++ fs)

def rangeMap (f : α → Except (List ε) β) : List α → Except (List ε) (List β)
  | [] => .ok []
  | a :: rest => both List.cons (f a) (rangeMap f rest)

def thenErrors (errors next : List ε) : List ε := if errors.isEmpty then next else errors

def stop (errors : List ε) : Except (List ε) Unit := if errors.isEmpty then .ok () else .error errors

def require (holds : Bool) (e : ε) : Except (List ε) Unit := if holds then .ok () else .error [e]

theorem require_ok {holds : Bool} {e : ε} {u : Unit} (h : require holds e = .ok u) : holds = true := by
  unfold require at h
  split_ifs at h with hb
  exact hb

theorem stop_ok {errors : List ε} {u : Unit} (h : stop errors = .ok u) : errors = [] := by
  unfold stop at h
  split_ifs at h with hb
  exact List.isEmpty_iff.mp hb

theorem thenErrors_nil {errors next : List ε} (h : thenErrors errors next = []) : errors = [] ∧ next = [] := by
  unfold thenErrors at h
  split_ifs at h with hempty
  · exact ⟨List.isEmpty_iff.mp hempty, h⟩
  · exact absurd (List.isEmpty_iff.mpr h) hempty

theorem both_ok {γ : Type} {f : α → β → γ} {x : Except (List ε) α} {y : Except (List ε) β} {c : γ}
    (h : both f x y = .ok c) : ∃ a b, x = .ok a ∧ y = .ok b ∧ f a b = c := by
  cases x with
  | error es => cases y <;> cases h
  | ok a =>
    cases y with
    | error es => cases h
    | ok b => exact ⟨a, b, rfl, rfl, Except.ok.inj h⟩

variable {l : List α} {bs : List β} {f : α → Except ε β}

theorem rangeMap_ok {f : α → Except (List ε) β} (h : rangeMap f l = .ok bs) :
    Forall₂ (fun a b => f a = .ok b) l bs := by
  induction l generalizing bs with
  | nil =>
    cases h
    exact .nil
  | cons a rest ih =>
    obtain ⟨b, bs', hb, hbs, rfl⟩ := both_ok h
    exact .cons hb (ih hbs)

theorem exists_ok_bind {x : Except ε α} {b : β} (h : x >>= f = .ok b) : ∃ a, x = .ok a ∧ f a = .ok b := by
  cases x with
  | error e => cases h
  | ok a => exact ⟨a, rfl, h⟩

theorem mapM_ok (h : l.mapM f = .ok bs) : Forall₂ (fun a b => f a = .ok b) l bs := by
  induction l generalizing bs with
  | nil =>
    cases h
    exact .nil
  | cons a rest ih =>
    rw [mapM_cons] at h
    obtain ⟨b, hb, hrest⟩ := exists_ok_bind h
    obtain ⟨bs', hbs, hcons⟩ := exists_ok_bind hrest
    cases hcons
    exact .cons hb (ih hbs)

theorem exists_mapM_ok (h : ∀ a ∈ l, ∃ b, f a = .ok b) : ∃ bs, l.mapM f = .ok bs := by
  induction l with
  | nil => exact ⟨[], rfl⟩
  | cons a rest ih =>
    obtain ⟨⟨b, hb⟩, hrest⟩ := forall_mem_cons.mp h
    obtain ⟨bs, hbs⟩ := ih hrest
    exact ⟨b :: bs, by rw [mapM_cons, hb, hbs]; rfl⟩

theorem ok_of_mem {R : α → β → Prop} (h : Forall₂ R l bs) {a : α} (ha : a ∈ l) : ∃ b ∈ bs, R a b := by
  induction h with
  | nil => cases ha
  | @cons x y l bs hxy _ ih =>
    obtain rfl | ha := mem_cons.mp ha
    · exact ⟨y, mem_cons_self, hxy⟩
    · obtain ⟨b, hb, hab⟩ := ih ha
      exact ⟨b, mem_cons_of_mem _ hb, hab⟩

theorem mapM_eq_some_iff {f : α → Option β} : l.mapM f = some bs ↔ Forall₂ (fun a b => f a = some b) l bs := by
  induction l generalizing bs with
  | nil =>
    constructor
    · rintro ⟨⟩
      exact .nil
    · rintro ⟨⟩
      rfl
  | cons a rest ih =>
    rw [mapM_cons]
    constructor
    · intro h
      obtain ⟨b, hb, h⟩ := Option.bind_eq_some_iff.mp h
      obtain ⟨bs', hbs, ⟨⟩⟩ := Option.bind_eq_some_iff.mp h
      exact .cons hb (ih.mp hbs)
    · rintro (_ | ⟨hb, hbs⟩)
      rw [hb, ih.mpr hbs]
      rfl

theorem of_mapM_zipIdx_ok {f : α → ℕ → Except (List ε) β}
    (h : (l.zipIdx.mapM fun (a, i) => f a i) = .ok bs) {a : α} (ha : a ∈ l) : ∃ i b, f a i = .ok b := by
  obtain ⟨i, hi⟩ := mem_iff_getElem?.mp ha
  have hmem : (a, i) ∈ l.zipIdx := mk_mem_zipIdx_iff_getElem?.mpr hi
  obtain ⟨b, -, hb⟩ := ok_of_mem (mapM_ok h) hmem
  exact ⟨i, b, hb⟩

inductive Fault (ε : Type)
  | failed (e : ε)
  | panicked
deriving DecidableEq

def failWith (e : ε) : Except (Fault ε) α := .error (.failed e)

def index (l : List α) (i : ℕ) : Except (Fault ε) α :=
  match l[i]? with
  | some a => .ok a
  | none => .error .panicked

theorem index_of_lt {i : ℕ} (h : i < l.length) : (index l i : Except (Fault ε) α) = .ok l[i] := by
  simp [index, h]

theorem bind_eq_of_ok {x : Except (Fault ε) α} {f : α → Except (Fault ε) β} {a : α} (h : x = .ok a) : x >>= f = f a := by
  rw [h]
  rfl

end Hydracore.Systems
