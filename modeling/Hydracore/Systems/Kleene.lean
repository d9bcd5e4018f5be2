import Mathlib.Data.Bool.Basic

namespace Hydracore.Systems

open List

inductive Kleene where
  | no
  | unknown
  | yes
  deriving DecidableEq

namespace Kleene

def not : Kleene → Kleene
  | no => yes
  | unknown => unknown
  | yes => no

def invertIf (invert : Bool) (k : Kleene) : Kleene := if invert then k.not else k

def all : List Kleene → Kleene
  | [] => yes
  | no :: _ => no
  | unknown :: ks => if all ks = no then no else unknown
  | yes :: ks => all ks

def any : List Kleene → Kleene
  | [] => no
  | yes :: _ => yes
  | unknown :: ks => if any ks = yes then yes else unknown
  | no :: ks => any ks

section

variable (ks : List Kleene)

theorem all_eq_no : all ks = no ↔ no ∈ ks := by
  induction ks with
  | nil => simp [all]
  | cons k ks ih =>
    cases k with
    | no => simp [all]
    | unknown =>
      simp only [all, mem_cons, reduceCtorEq, false_or, ← ih]
      split_ifs with h <;> simp [h]
    | yes => simp [all, ih]

theorem all_eq_yes : all ks = yes ↔ ∀ k ∈ ks, k = yes := by
  induction ks with
  | nil => simp [all]
  | cons k ks ih =>
    cases k with
    | no => simp [all]
    | unknown =>
      simp only [all, mem_cons, forall_eq_or_imp, reduceCtorEq, false_and, iff_false]
      split_ifs <;> simp
    | yes => simp [all, ih]

theorem any_eq_not_all : any ks = (all (ks.map not)).not := by
  induction ks with
  | nil => rfl
  | cons k ks ih =>
    cases k with
    | no => simpa [any, all, not] using ih
    | unknown =>
      simp only [any, ih, map_cons, all, not]
      cases all (ks.map not) <;> rfl
    | yes => rfl

theorem not_eq (k : Kleene) : (k.not = yes ↔ k = no) ∧ (k.not = no ↔ k = yes) := by
  cases k <;> simp [not]

theorem any_eq_yes : any ks = yes ↔ yes ∈ ks := by
  simp [any_eq_not_all, not_eq, all_eq_no]

theorem any_eq_no : any ks = no ↔ ∀ k ∈ ks, k = no := by
  simp [any_eq_not_all, not_eq, all_eq_yes]

end

theorem any_skip (k : Kleene) (ks : List Kleene) : any (k :: no :: ks) = any (k :: ks) := by
  cases k <;> rfl

theorem any_stop (k : Kleene) (ks : List Kleene) : any (k :: yes :: ks) = yes := (any_eq_yes _).mpr (by simp)

variable {k : Kleene}

theorem any_note (hk : k ≠ yes) (ks : List Kleene) : any (k :: unknown :: ks) = any (unknown :: ks) := by
  cases k with
  | no => rfl
  | unknown =>
    simp only [any]
    split_ifs <;> simp_all
  | yes => contradiction

theorem all_skip (k : Kleene) (ks : List Kleene) : all (k :: yes :: ks) = all (k :: ks) := by
  cases k <;> rfl

theorem all_stop (k : Kleene) (ks : List Kleene) : all (k :: no :: ks) = no := (all_eq_no _).mpr (by simp)

theorem all_note (hk : k ≠ no) (ks : List Kleene) : all (k :: unknown :: ks) = all (unknown :: ks) := by
  cases k with
  | no => contradiction
  | unknown =>
    simp only [all]
    split_ifs <;> simp_all
  | yes => rfl

def ofBool (b : Bool) : Kleene := if b then yes else no

theorem ofBool_inj {b b' : Bool} : ofBool b = ofBool b' ↔ b = b' := by
  cases b <;> cases b' <;> simp [ofBool]

theorem ofBool_decide (hk : k ≠ unknown) : ofBool (k = yes) = k := by
  cases k <;> simp_all [ofBool]

theorem ofBool_ne_unknown (b : Bool) : ofBool b ≠ unknown := by
  cases b <;> simp [ofBool]

theorem invertIf_ofBool (invert b : Bool) : (ofBool b).invertIf invert = ofBool (b ^^ invert) := by
  cases invert <;> cases b <;> rfl

theorem all_map_ofBool {α : Type} (b : α → Bool) (xs : List α) :
    all (xs.map fun x => ofBool (b x)) = ofBool (xs.all b) := by
  induction xs with
  | nil => rfl
  | cons x xs ih => cases h : b x <;> simp_all [all, ofBool]

theorem any_map_ofBool {α : Type} (b : α → Bool) (xs : List α) :
    any (xs.map fun x => ofBool (b x)) = ofBool (xs.any b) := by
  induction xs with
  | nil => rfl
  | cons x xs ih => cases h : b x <;> simp_all [any, ofBool]

/-- One half of agreement with the value once everything is known: for `side = false` what is excluded
does not hold, for `side = true` what is certain holds. -/
def Bounds (side : Bool) (k : Kleene) (b : Bool) : Prop :=
  match side with
  | false => k = no → b = false
  | true => k = yes → b = true

theorem not_bounds_false {b : Bool} : ¬Bounds false k b ↔ k = no ∧ b = true := by
  simp [Bounds]

theorem not_bounds_true {b : Bool} : ¬Bounds true k b ↔ k = yes ∧ b = false := by
  simp [Bounds]

theorem bounds_invertIf {side invert : Bool} {b : Bool} :
    Bounds side (k.invertIf invert) (b ^^ invert) ↔ Bounds (side ^^ invert) k b := by
  cases invert with
  | false => simp [Kleene.invertIf]
  | true => cases side <;> cases k <;> simp [Bounds, Kleene.invertIf, Kleene.not]

section Lists

variable {α : Type} {side : Bool} {k : α → Kleene} {b : α → Bool} {xs : List α}

theorem exists_and_forall {p q : α → Prop} :
    ((∃ x ∈ xs, p x) ∧ ∀ x ∈ xs, q x) ↔ (∃ x ∈ xs, p x ∧ q x) ∧ ∀ x ∈ xs, q x := by
  constructor
  · rintro ⟨⟨x, hx, hp⟩, hall⟩
    exact ⟨⟨x, hx, hp, hall x hx⟩, hall⟩
  · rintro ⟨⟨x, hx, hp, -⟩, hall⟩
    exact ⟨⟨x, hx, hp⟩, hall⟩

theorem not_bounds_all_false : ¬Bounds false (all (xs.map k)) (xs.all b) ↔
    (∃ x ∈ xs, ¬Bounds false (k x) (b x)) ∧ ∀ x ∈ xs, b x = true := by
  simp only [not_bounds_false, all_eq_no, mem_map, all_eq_true]
  exact exists_and_forall

theorem not_bounds_all_true : ¬Bounds true (all (xs.map k)) (xs.all b) ↔
    (∃ x ∈ xs, ¬Bounds true (k x) (b x)) ∧ ∀ x ∈ xs, k x = yes := by
  simp only [not_bounds_true, all_eq_yes, forall_mem_map, all_eq_false, Bool.not_eq_true]
  rw [and_comm, exists_and_forall]
  simp only [and_comm]

theorem not_bounds_any_false : ¬Bounds false (any (xs.map k)) (xs.any b) ↔
    (∃ x ∈ xs, ¬Bounds false (k x) (b x)) ∧ ∀ x ∈ xs, k x = no := by
  simp only [not_bounds_false, any_eq_no, forall_mem_map, any_eq_true]
  rw [and_comm, exists_and_forall]
  simp only [and_comm]

theorem not_bounds_any_true : ¬Bounds true (any (xs.map k)) (xs.any b) ↔
    (∃ x ∈ xs, ¬Bounds true (k x) (b x)) ∧ ∀ x ∈ xs, b x = false := by
  simp only [not_bounds_true, any_eq_yes, mem_map, any_eq_false, Bool.not_eq_true]
  exact exists_and_forall

theorem bounds_all (h : ∀ x ∈ xs, Bounds side (k x) (b x)) : Bounds side (all (xs.map k)) (xs.all b) := by
  by_contra hnot
  obtain ⟨x, hx, hfalse⟩ : ∃ x ∈ xs, ¬Bounds side (k x) (b x) := by
    cases side with
    | false => exact (not_bounds_all_false.mp hnot).1
    | true => exact (not_bounds_all_true.mp hnot).1
  exact hfalse (h x hx)

theorem bounds_any (h : ∀ x ∈ xs, Bounds side (k x) (b x)) : Bounds side (any (xs.map k)) (xs.any b) := by
  by_contra hnot
  obtain ⟨x, hx, hfalse⟩ : ∃ x ∈ xs, ¬Bounds side (k x) (b x) := by
    cases side with
    | false => exact (not_bounds_any_false.mp hnot).1
    | true => exact (not_bounds_any_true.mp hnot).1
  exact hfalse (h x hx)

end Lists

end Kleene

end Hydracore.Systems
