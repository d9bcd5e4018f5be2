import Hydracore.Formats.BigEndian
import Hydracore.Systems.Tasks
import Mathlib.Data.List.SplitLengths

namespace Hydracore.Formats

open List

variable {α β : Type}

def Fits (slots : List (Option (List α))) (pieces : List (List α)) : Prop :=
  Forall₂ (fun slot piece => ∀ x, slot = some x → x = piece) slots pieces

def slotLength (slot : Option (List α)) : ℕ := (slot.getD []).length

theorem Fits.empty (pieces : List (List α)) : Fits (replicate pieces.length none) pieces := by
  induction pieces with
  | nil => exact .nil
  | cons piece pieces ih => exact .cons (by intro x hx; cases hx) ih

variable {slots : List (Option (List α))} {pieces : List (List α)}

theorem Fits.fill (h : Fits slots pieces) {i : ℕ}
    {piece : List α} (hi : pieces[i]? = some piece) : Fits (slots.set i (some piece)) pieces := by
  induction h generalizing i with
  | nil => simp at hi
  | @cons slot first slots pieces hfirst hrest ih =>
    cases i with
    | zero =>
      cases hi
      exact .cons (by intro x hx; exact (Option.some.inj hx).symm) hrest
    | succ i => exact .cons hfirst (ih (by simpa using hi))

theorem Fits.size_le (h : Fits slots pieces) : (slots.map slotLength).sum ≤ pieces.flatten.length := by
  induction h with
  | nil => exact Nat.le_refl 0
  | @cons slot piece slots pieces hslot hrest ih =>
    have hle : slotLength slot ≤ piece.length := by
      cases slot with
      | none => exact Nat.zero_le _
      | some x => rw [hslot x rfl]; exact le_rfl
    simp only [map_cons, sum_cons, flatten_cons, length_append]
    omega

theorem Fits.complete (h : Fits slots pieces)
    (hfull : slots.countP Option.isNone = 0) : slots.flatMap (fun slot => slot.getD []) = pieces.flatten := by
  induction h with
  | nil => rfl
  | @cons slot piece slots pieces hslot hrest ih =>
    cases slot with
    | none => simp at hfull
    | some x =>
      rw [flatMap_cons, ih hfull, hslot x rfl]
      rfl

theorem sum_slotLength_set {i : ℕ} (h : slots[i]? = some none) (x : List α) :
    ((slots.set i (some x)).map slotLength).sum = (slots.map slotLength).sum + x.length := by
  obtain ⟨before, after, rfl, hset⟩ := Systems.exists_set h
  simp only [hset, map_append, map_cons, sum_append, sum_cons, slotLength, Option.getD_some,
    Option.getD_none, length_nil]
  omega

def chunk (size : ℕ) (l : List α) (i : ℕ) : List α := (l.drop (i * size)).take size

theorem chunk_length_le (size : ℕ) (l : List α) (i : ℕ) : (chunk size l i).length ≤ size := by
  rw [chunk, length_take]
  exact Nat.min_le_left _ _

theorem flatMap_chunk (size : ℕ) (l : List α) (n : ℕ) : (range n).flatMap (chunk size l) = l.take (n * size) := by
  induction n with
  | zero => simp
  | succ n ih =>
    rw [range_succ, flatMap_append, ih, flatMap_singleton, chunk, Nat.succ_mul, take_add]

def chunkCount (size length : ℕ) : ℕ := if size < length then (length + size - 1) / size else 1

theorem chunkCount_pos {size : ℕ} (hs : 0 < size) (length : ℕ) : 0 < chunkCount size length := by
  unfold chunkCount
  split_ifs with h
  · exact Nat.div_pos (by omega) hs
  · exact Nat.one_pos

theorem length_le_chunkCount {size : ℕ} (hs : 0 < size) (length : ℕ) : length ≤ chunkCount size length * size := by
  unfold chunkCount
  split_ifs with h
  · have := Nat.div_add_mod (length + size - 1) size
    have := Nat.mod_lt (length + size - 1) hs
    rw [Nat.mul_comm]
    omega
  · omega

theorem chunkCount_le {size length n : ℕ} (hs : 0 < size) (hn : 0 < n) (h : length ≤ n * size) :
    chunkCount size length ≤ n := by
  unfold chunkCount
  split_ifs
  · rw [Nat.div_le_iff_le_mul_add_pred hs]
    rw [Nat.mul_comm] at h
    omega
  · exact hn

def stripes (first : ℕ) (pieces : List (List β)) (i : ℕ) : List β := if i < first then [] else pieces.getD (i - first) []

theorem stripes_nil (first : ℕ) : (stripes first [] : ℕ → List β) = fun _ => [] := by
  funext i
  simp [stripes]

theorem stripes_cons_self (first : ℕ) (piece : List β) (pieces : List (List β)) :
    stripes first (piece :: pieces) first = piece := by
  simp [stripes]

theorem stripes_cons_ne {first i : ℕ} (h : i ≠ first) (piece : List β) (pieces : List (List β)) :
    stripes first (piece :: pieces) i = stripes (first + 1) pieces i := by
  unfold stripes
  split_ifs with hlt hnext hnext
  · rfl
  · omega
  · omega
  · rw [show i - first = (i - (first + 1)) + 1 by omega, getD_cons_succ]

theorem stripes_nil_cons (first : ℕ) (pieces : List (List β)) :
    stripes first ([] :: pieces) = stripes (first + 1) pieces := by
  funext i
  by_cases h : i = first
  · rw [h, stripes_cons_self]
    simp [stripes]
  · exact stripes_cons_ne h [] pieces

def lengths (pieces : List (List β)) : List ℤ := pieces.map fun piece => (piece.length : ℤ)

theorem sum_toNat {sizes : List ℤ} (hnonneg : ∀ size ∈ sizes, 0 ≤ size) :
    ((sizes.map Int.toNat).sum : ℤ) = sizes.sum := by
  induction sizes with
  | nil => rfl
  | cons size sizes ih =>
    rw [forall_mem_cons] at hnonneg
    have hrest := ih hnonneg.2
    simp only [map_cons, sum_cons]
    omega

theorem lengths_splitLengths {sizes : List ℤ} {l : List β} (hnonneg : ∀ size ∈ sizes, 0 ≤ size)
    (hsum : sizes.sum = l.length) :
    lengths ((sizes.map Int.toNat).splitLengths l) = sizes ∧ ((sizes.map Int.toNat).splitLengths l).flatten = l := by
  have hlength : (sizes.map Int.toNat).sum = l.length := by
    have := sum_toNat hnonneg
    omega
  refine ⟨?_, flatten_splitLengths _ _ hlength.ge⟩
  have hlengths := congrArg (map Int.ofNat) (map_splitLengths_length l (sizes.map Int.toNat) hlength.le)
  rw [map_map, map_map] at hlengths
  refine hlengths.trans ((map_congr_left fun size hsize => ?_).trans (map_id sizes))
  exact Int.toNat_of_nonneg (hnonneg size hsize)

end Hydracore.Formats
