import Hydracore.Tlsfragment.Conn

namespace Hydracore.Tlsfragment

open Formats List Option

def span : List Bytes → ℕ
  | [] => 0
  | [split] => split.length
  | split :: splits => split.length + 1 + span splits

def lastOffset : List Bytes → ℕ
  | [] => 0
  | [_] => 0
  | split :: splits => split.length + 1 + lastOffset splits

variable {splits : List Bytes} {indexes : List ℕ} {parts : List Bytes}

theorem span_cons {split : Bytes} (h : splits ≠ []) : span (split :: splits) = split.length + 1 + span splits := by
  cases splits with
  | nil => exact absurd rfl h
  | cons => rfl

theorem length_le_span (split : Bytes) (splits : List Bytes) : split.length ≤ span (split :: splits) := by
  cases splits with
  | nil => exact le_rfl
  | cons other splits =>
    rw [span_cons (cons_ne_nil _ _)]
    omega

theorem lastOffset_cons {split : Bytes} (h : splits ≠ []) :
    lastOffset (split :: splits) = split.length + 1 + lastOffset splits := by
  cases splits with
  | nil => exact absurd rfl h
  | cons => rfl

theorem span_eq {last : Bytes} (h : splits.getLast? = some last) :
    span splits = lastOffset splits + last.length := by
  induction splits with
  | nil => cases h
  | cons split splits ih =>
    by_cases hs : splits = []
    · subst hs
      cases h
      simp [span, lastOffset]
    · rw [getLast?_cons_of_ne_nil hs] at h
      rw [span_cons hs, lastOffset_cons hs, ih h]
      omega

theorem splitDots_ne_nil (name : Bytes) : splitDots name ≠ [] := by
  cases name with
  | nil => simp [splitDots]
  | cons c s =>
    rw [splitDots]
    split_ifs
    · simp
    · split <;> simp

theorem span_splitDots (name : Bytes) : span (splitDots name) = name.length := by
  induction name with
  | nil => rfl
  | cons c s ih =>
    rw [splitDots]
    split_ifs
    · rw [span_cons (splitDots_ne_nil s), ih, length_nil, length_cons]
      omega
    · cases hs : splitDots s with
      | nil => exact absurd hs (splitDots_ne_nil s)
      | cons label labels =>
        rw [hs] at ih
        cases labels with
        | nil | cons =>
          simp only [span, length_cons] at ih ⊢
          omega

theorem span_take_le (splits : List Bytes) (n : ℕ) : span (splits.take n) ≤ span splits := by
  induction splits generalizing n with
  | nil => simp [span]
  | cons split splits ih =>
    cases n with
    | zero => exact Nat.zero_le _
    | succ n =>
      rw [take_succ_cons]
      by_cases hrest : splits = []
      · simp [hrest]
      · rw [span_cons hrest]
        by_cases htake : splits.take n = []
        · rw [htake, span]
          omega
        · rw [span_cons htake]
          have := ih n
          omega

theorem span_tail_le (splits : List Bytes) : span splits.tail ≤ span splits := by
  cases splits with
  | nil => exact le_rfl
  | cons split splits =>
    by_cases h : splits = []
    · simp [h, span]
    · rw [span_cons h, tail_cons]
      omega

theorem span_labelsOf (publicSuffix : Bytes → Bytes) (index : ℕ) (name : Bytes) :
    span (labelsOf publicSuffix index name).2 ≤ name.length := by
  have hshort : span (if publicSuffix name ≠ [] then
      (splitDots name).take ((splitDots name).length - name.count 46) else splitDots name) ≤ name.length := by
    rw [← span_splitDots name]
    split_ifs
    · exact span_take_le _ _
    · exact le_rfl
  simp only [labelsOf]
  split_ifs at hshort ⊢
  · exact (span_tail_le _).trans hshort
  · exact hshort
  · exact (span_tail_le _).trans hshort
  · exact hshort

theorem le_labelsOf (publicSuffix : Bytes → Bytes) (index : ℕ) (name : Bytes) :
    index ≤ (labelsOf publicSuffix index name).1 := by
  simp only [labelsOf]
  split_ifs <;> simp

inductive Placed : ℕ → List Bytes → List ℕ → Prop
  | nil (start : ℕ) : Placed start [] []
  | cons {start index : ℕ} {split : Bytes} {splits : List Bytes} {indexes : List ℕ} (lo : start ≤ index)
      (hi : index < start + split.length) (rest : Placed (start + split.length + 1) splits indexes) :
      Placed start (split :: splits) (index :: indexes)

theorem splitIndexes_placed (intn : ℕ → ℕ) (i start : ℕ) (h : ∀ split ∈ splits, split ≠ []) :
    ∃ indexes, splitIndexes intn i start splits = some indexes ∧ Placed start splits indexes := by
  induction splits generalizing i start with
  | nil => exact ⟨[], rfl, .nil start⟩
  | cons split splits ih =>
    obtain ⟨hsplit, hrest⟩ := forall_mem_cons.mp h
    obtain ⟨indexes, hindexes, hplaced⟩ := ih (i + 1) (start + split.length + 1) hrest
    have hpos : 0 < split.length := length_pos_iff.mpr hsplit
    have hmod := Nat.mod_lt (intn i) hpos
    refine ⟨(start + intn i % split.length) :: indexes, ?_, .cons (by omega) (by omega) hplaced⟩
    rw [splitIndexes, if_neg hsplit, hindexes]
    rfl

theorem labels_of_splitIndexes {intn : ℕ → ℕ} {i start : ℕ}
    (h : splitIndexes intn i start splits = some indexes) : ∀ split ∈ splits, split ≠ [] := by
  induction splits generalizing i start indexes with
  | nil => exact nofun
  | cons split splits ih =>
    rw [splitIndexes] at h
    split_ifs at h with hsplit
    obtain ⟨rest, hrest, -⟩ := map_eq_some_iff.mp h
    exact forall_mem_cons.mpr ⟨hsplit, ih hrest⟩

variable {b : Bytes}

theorem cut_of_placed {lo start : ℕ} (h : Placed start splits indexes) (hlo : lo ≤ start) (hlen : lo ≤ b.length)
    (hend : splits ≠ [] → start + span splits ≤ b.length + 1) :
    ∃ parts, cut b lo indexes = some parts ∧ parts.flatten = b.drop lo := by
  induction h generalizing lo with
  | nil start =>
    refine ⟨[b.drop lo], ?_, by simp⟩
    rw [cut, slice_of_le hlen le_rfl, field, take_length]
    rfl
  | @cons start index split splits indexes hge hlt rest ih =>
    have hend := hend (cons_ne_nil split splits)
    have hsplit := length_le_span split splits
    have hindex : index ≤ b.length := by omega
    have hrest : splits ≠ [] → start + split.length + 1 + span splits ≤ b.length + 1 := by
      intro hs
      rw [span_cons hs] at hend
      omega
    obtain ⟨parts, hparts, hflat⟩ := ih (show index ≤ start + split.length + 1 by omega) hindex hrest
    refine ⟨field b lo index :: parts, ?_, ?_⟩
    · rw [cut, slice_of_le (by omega) hindex, bind_some, hparts]
      rfl
    · rw [flatten_cons, hflat]
      exact field_append_drop (by omega) hlen

theorem parts_of_cut {lo start : ℕ} (h : Placed start splits indexes) (hlo : lo < start) (hlen : lo < b.length)
    (hend : splits ≠ [] → start + span splits ≤ b.length ∧ start + span splits ≤ lo + 65536 ∧
      b.length < start + lastOffset splits + 65536)
    (hlast : splits = [] → b.length < lo + 65536) (hparts : cut b lo indexes = some parts) :
    ∀ part ∈ parts, part ≠ [] ∧ part.length < 65536 := by
  induction h generalizing lo parts with
  | nil start =>
    rw [cut, slice_of_le (by omega) le_rfl] at hparts
    cases hparts
    have hlength : (field b lo b.length).length = b.length - lo := field_length le_rfl
    refine forall_mem_singleton.mpr ⟨?_, ?_⟩
    · apply ne_nil_of_length_pos
      omega
    · have := hlast rfl
      omega
  | @cons start index split splits indexes hge hlt rest ih =>
    obtain ⟨hin, hmiddle, hrest⟩ := hend nofun
    have hsplit := length_le_span split splits
    have hindex : index < b.length ∧ index < lo + 65536 := by omega
    rw [cut, slice_of_le (by omega) (by omega), bind_some] at hparts
    obtain ⟨others, hothers, rfl⟩ := map_eq_some_iff.mp hparts
    have hlength : (field b lo index).length = index - lo := field_length (by omega)
    refine forall_mem_cons.mpr ⟨⟨?_, by omega⟩, ih (by omega) hindex.1 (fun hs => ?_) (fun hs => ?_) hothers⟩
    · apply ne_nil_of_length_pos
      omega
    · rw [span_cons hs] at hin hmiddle
      rw [lastOffset_cons hs] at hrest
      omega
    · rw [hs, lastOffset] at hrest
      omega

theorem getLast_splitIndexes {intn : ℕ → ℕ} {i start : ℕ} {last : Bytes}
    (h : splitIndexes intn i start splits = some indexes) (hlast : splits.getLast? = some last) :
    indexes.getLast? = some (start + lastOffset splits + intn (i + (splits.length - 1)) % last.length) := by
  induction splits generalizing i start indexes with
  | nil => cases hlast
  | cons split splits ih =>
    rw [splitIndexes] at h
    split_ifs at h
    obtain ⟨rest, hrest, rfl⟩ := map_eq_some_iff.mp h
    by_cases hs : splits = []
    · subst hs
      cases hlast
      cases hrest
      simp [lastOffset]
    · obtain ⟨second, others, rfl⟩ := exists_cons_of_ne_nil hs
      have hlast' := ih hrest (by simpa using hlast)
      have hne : rest ≠ [] := by
        rintro rfl
        cases hlast'
      have hcount : i + 1 + ((second :: others).length - 1) = i + ((split :: second :: others).length - 1) := by
        simp only [length_cons]
        omega
      rw [getLast?_cons_of_ne_nil hne, hlast', lastOffset_cons hs, hcount]
      congr 2
      omega

theorem getLast_cut {lo last : ℕ} (h : cut b lo indexes = some parts)
    (hlast : (lo :: indexes).getLast? = some last) : last ≤ b.length ∧ parts.getLast? = some (b.drop last) := by
  induction indexes generalizing lo parts with
  | nil =>
    cases hlast
    obtain ⟨part, hpart, rfl⟩ := map_eq_some_iff.mp h
    unfold slice at hpart
    split_ifs at hpart with hbounds
    cases hpart
    refine ⟨hbounds.1, ?_⟩
    simp [field]
  | cons hi indexes ih =>
    obtain ⟨part, -, hrest⟩ := bind_eq_some_iff.mp h
    obtain ⟨others, hothers, rfl⟩ := map_eq_some_iff.mp hrest
    obtain ⟨hle, hparts⟩ := ih hothers (by simpa using hlast)
    refine ⟨hle, ?_⟩
    have hne : others ≠ [] := by
      rintro rfl
      cases hparts
    rw [getLast?_cons_of_ne_nil hne, hparts]

theorem ends_of_payloads {splitRecord : Bool} {first last : ℕ}
    (h : payloads b splitRecord indexes = some parts) (hfirst : indexes.head? = some first)
    (hlast : indexes.getLast? = some last) :
    last ≤ b.length ∧ b.drop last ∈ parts ∧ (splitRecord = true → ∃ part ∈ parts, part.length = first - 5) := by
  cases indexes with
  | nil => cases hfirst
  | cons index indexes =>
    cases hfirst
    obtain ⟨part, hpart, hrest⟩ := bind_eq_some_iff.mp h
    obtain ⟨payload, hpayload, hcut⟩ := bind_eq_some_iff.mp hrest
    obtain ⟨others, hothers, rfl⟩ := map_eq_some_iff.mp hcut
    obtain ⟨hle, hdrop⟩ := getLast_cut hothers hlast
    refine ⟨hle, mem_cons_of_mem _ (mem_of_getLast? hdrop), fun hrecord => ⟨payload, mem_cons_self, ?_⟩⟩
    unfold slice at hpart hpayload
    split_ifs at hpart hpayload with hin hheader
    cases hpart
    cases hpayload
    rw [field_length le_rfl, field_length hin.2]
    rfl

end Hydracore.Tlsfragment
