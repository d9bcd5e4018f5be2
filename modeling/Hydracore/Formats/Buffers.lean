import Hydracore.Formats.BigEndian
import Mathlib.Data.List.Infix

namespace Hydracore.Formats

open List

def field (b : Bytes) (lo hi : ℕ) : Bytes := (b.take hi).drop lo

def slice (b : Bytes) (lo hi : ℕ) : Option Bytes :=
  if lo ≤ hi ∧ hi ≤ b.length then some (field b lo hi) else none

def write (b : Bytes) (offset : ℕ) (src : Bytes) : Option Bytes :=
  if offset + src.length ≤ b.length then some (b.take offset ++ src ++ b.drop (offset + src.length)) else none

variable {lo hi : ℕ} {b : Bytes}

theorem slice_of_le (h : lo ≤ hi) (hb : hi ≤ b.length) : slice b lo hi = some (field b lo hi) :=
  if_pos ⟨h, hb⟩

theorem field_append (x m y : Bytes) (lo hi : ℕ) (hlo : lo = x.length) (hhi : hi = x.length + m.length) :
    field (x ++ (m ++ y)) lo hi = m := by
  subst hlo hhi
  have htake : (x ++ (m ++ y)).take (x.length + m.length) = x ++ m := by
    rw [← append_assoc]
    apply take_left'
    exact length_append
  rw [field, htake, drop_left]

theorem field_drop (x y : Bytes) (h : x.length ≤ lo) (hle : lo ≤ hi) :
    field (x ++ y) lo hi = field y (lo - x.length) (hi - x.length) := by
  rw [field, take_append, take_of_length_le (h.trans hle), drop_append, drop_eq_nil_of_le h, nil_append, field]

theorem field_cons (a : UInt8) (y : Bytes) (h : 0 < lo) (hle : lo ≤ hi) :
    field (a :: y) lo hi = field y (lo - 1) (hi - 1) :=
  field_drop [a] y h hle

theorem field_zero (m y : Bytes) {hi : ℕ} (h : hi = m.length) : field (m ++ y) 0 hi = m := by
  rw [field, drop_zero, h, take_left]

theorem field_append_drop (h : lo ≤ hi) (hb : lo ≤ b.length) : field b lo hi ++ b.drop hi = b.drop lo := by
  conv_rhs => rw [← take_append_drop hi b]
  rw [field, drop_append_of_le_length (by rw [length_take]; omega)]

theorem field_length (hb : hi ≤ b.length) : (field b lo hi).length = hi - lo := by
  rw [field, length_drop, length_take, Nat.min_eq_left hb]

theorem slice_append (x m y : Bytes) (lo hi : ℕ) (hlo : lo = x.length) (hhi : hi = x.length + m.length) :
    slice (x ++ (m ++ y)) lo hi = some m := by
  rw [slice_of_le (by omega) (by simp only [length_append]; omega), field_append x m y lo hi hlo hhi]

theorem write_append (x m y src : Bytes) (offset : ℕ) (hx : offset = x.length) (hm : m.length = src.length) :
    write (x ++ (m ++ y)) offset src = some (x ++ src ++ y) := by
  subst hx
  have hle : x.length + src.length ≤ (x ++ (m ++ y)).length := by
    simp only [length_append]
    omega
  have hdrop : (x ++ (m ++ y)).drop (x.length + src.length) = y := by
    rw [← append_assoc]
    apply drop_left'
    simp only [length_append]
    omega
  rw [write, if_pos hle, take_left, hdrop]

theorem exists_split {l : Bytes} (a : ℕ) {b : ℕ} (h : l.length = a + b) :
    ∃ x y, l = x ++ y ∧ x.length = a ∧ y.length = b :=
  ⟨l.take a, l.drop a, (take_append_drop a l).symm, by simp [h], by simp [h]⟩

def frame (b : Bytes) : Bytes := bigEndian 2 (b.length % 2 ^ 16) ++ b

def frames (l : List Bytes) : Bytes := l.flatMap frame

def Sized (b : Bytes) : Prop := b ≠ [] ∧ b.length < 2 ^ 16

@[simp] theorem frames_nil : frames [] = [] := rfl

theorem frames_cons (b : Bytes) (l : List Bytes) : frames (b :: l) = frame b ++ frames l := rfl

theorem frames_append (l m : List Bytes) : frames (l ++ m) = frames l ++ frames m := flatMap_append

theorem frames_singleton (b : Bytes) : frames [b] = frame b := append_nil _

theorem frame_length (b : Bytes) : (frame b).length = 2 + b.length := by
  simp [frame]

theorem frames_drop {l : List Bytes} {r n : ℕ} (hr : r ≤ n) (hn : n ≤ l.length) :
    frames (l.drop r) = frames ((l.take n).drop r) ++ frames (l.drop n) := by
  rw [← frames_append]
  congr 1
  conv_lhs => rw [← take_append_drop n l]
  rw [drop_append_of_le_length (by rw [length_take]; omega)]

theorem take_eq_take_of_isPrefix {β : Type} {got l : List β} {n : ℕ} (h : got <+: l) (hn : n ≤ got.length) :
    got.take n = l.take n := by
  rw [prefix_iff_eq_take.mp h, take_take, Nat.min_eq_left hn]

theorem frames_head {got : Bytes} {l : List Bytes} (h : got <+: frames l) (hsized : ∀ b ∈ l, Sized b)
    (hlen : 2 ≤ got.length) : ∃ b rest, l = b :: rest ∧ Sized b ∧ ofBigEndian (got.take 2) = b.length ∧
      (2 + b.length ≤ got.length → (got.drop 2).take b.length = b) := by
  cases l with
  | nil =>
    have := h.length_le
    simp only [frames_nil, length_nil] at this
    omega
  | cons b rest =>
    have hb := hsized b mem_cons_self
    refine ⟨b, rest, rfl, hb, ?_, ?_⟩
    · rw [take_eq_take_of_isPrefix h hlen, frames_cons, take_append_of_le_length (by rw [frame_length]; omega)]
      rw [frame, take_left' (bigEndian_length _ _), Nat.mod_eq_of_lt hb.2]
      exact ofBigEndian_bigEndian hb.2
    · intro hfull
      have hframe : got.take (2 + b.length) = frame b := by
        rw [take_eq_take_of_isPrefix h hfull, frames_cons, take_left' (frame_length b)]
      rw [take_drop, hframe, frame, drop_left' (bigEndian_length _ _)]

end Hydracore.Formats
