import Hydracore.Formats.Numbers
import Hydracore.Systems.Outcomes

namespace Hydracore.Parasite.Relay

open Formats Systems List

structure PathQuality where
  workerID : UInt16
  smoothedRTT : ℤ
  packetsSent : UInt64
  packetsLost : UInt64
deriving DecidableEq

def pathRTTTolerance : ℤ := 2

def pathRTTSlack : ℤ := 30000000

def pathLossLimit : ℕ × ℕ := double 1 5

def pathLossMinPackets : UInt64 := 50

def lossRatio (q : PathQuality) : ℕ × ℕ :=
  if q.packetsSent < pathLossMinPackets then (0, 1)
  else divDouble (double q.packetsLost.toNat 1) (double q.packetsSent.toNat 1)

def PathQuality.acceptable (q : PathQuality) : Bool := !ltFraction pathLossLimit (lossRatio q)

def pathIsUsable (quality : PathQuality) (best : ℤ) : Bool :=
  if ltFraction pathLossLimit (lossRatio quality) then false
  else if quality.smoothedRTT ≤ 0 ∨ best ≤ 0 then true
  else quality.smoothedRTT ≤ int64 (best * pathRTTTolerance) ∨ quality.smoothedRTT ≤ int64 (best + pathRTTSlack)

def bestRTT (paths : List PathQuality) : ℤ :=
  paths.foldl (fun best path =>
      if 0 < path.smoothedRTT ∧ (best = 0 ∨ path.smoothedRTT < best) then path.smoothedRTT else best) 0

inductive IntSize
  | bits32
  | bits64

def IntSize.int : IntSize → ℤ → ℤ
  | .bits32, v => (v + 2147483648) % 4294967296 - 2147483648
  | .bits64, v => int64 v

inductive PickError
  | noActiveQUICPaths
deriving DecidableEq

variable (size : IntSize) (nextPath : UInt64) (paths : List PathQuality)

/-- The counter as an `int`, and the place it points at from an offset on; a negative one is out of range. -/
def turn (offset : ℕ) : ℤ := (size.int (size.int nextPath.toNat + offset)).tmod paths.length

def pathAt (offset : ℕ) : Except (Fault PickError) PathQuality :=
  if turn size nextPath paths offset < 0 then .error .panicked
  else index paths (turn size nextPath paths offset).toNat

def firstUsable : List ℕ → Except (Fault PickError) (Option PathQuality)
  | [] => .ok none
  | offset :: offsets => do
    let path ← pathAt size nextPath paths offset
    if pathIsUsable path (bestRTT paths) then return some path else firstUsable offsets

def pickPath : Except (Fault PickError) PathQuality :=
  if paths.length = 0 then failWith .noActiveQUICPaths
  else if paths.length = 1 then index paths 0
  else do
    let usable ← firstUsable size nextPath paths (List.range paths.length)
    match usable with
    | some path => return path
    | none => pathAt size nextPath paths 0

variable {path : PathQuality}

theorem acceptable_of_usable {best : ℤ} (h : pathIsUsable path best = true) : path.acceptable = true := by
  unfold pathIsUsable at h
  split_ifs at h with hlossy
  all_goals simpa [PathQuality.acceptable] using hlossy

theorem exists_pathAt (hne : paths ≠ []) {offset : ℕ} (h : 0 ≤ turn size nextPath paths offset) :
    ∃ path, pathAt size nextPath paths offset = .ok path := by
  have hpos : 0 < (paths.length : ℤ) := Int.natCast_pos.mpr (length_pos_iff.mpr hne)
  have hlt : turn size nextPath paths offset < paths.length := Int.tmod_lt_of_pos _ hpos
  have hindex : (turn size nextPath paths offset).toNat < paths.length := by omega
  refine ⟨paths[(turn size nextPath paths offset).toNat], ?_⟩
  rw [pathAt, if_neg (by omega), index_of_lt hindex]

theorem pathAt_of_ok {offset : ℕ} (h : pathAt size nextPath paths offset = .ok path) :
    0 ≤ turn size nextPath paths offset := by
  unfold pathAt at h
  split_ifs at h with hneg
  omega

theorem firstUsable_some {k m : ℕ} {found : PathQuality}
    (h : firstUsable size nextPath paths (range' k m) = .ok (some found)) :
    pathIsUsable found (bestRTT paths) = true ∧ ∃ offset, offset < k + m ∧
      (∀ earlier, k ≤ earlier → earlier ≤ offset → 0 ≤ turn size nextPath paths earlier) ∧
      pathAt size nextPath paths offset = .ok found := by
  induction m generalizing k with
  | zero => cases h
  | succ m ih =>
    obtain ⟨path, hpath, h⟩ := exists_ok_bind h
    have hturn := pathAt_of_ok size nextPath paths hpath
    split_ifs at h with husable
    · cases Except.ok.inj h
      refine ⟨husable, k, by omega, ?_, hpath⟩
      intro earlier hle hge
      obtain rfl : k = earlier := Nat.le_antisymm hle hge
      exact hturn
    · obtain ⟨hfound, offset, hlt, hearlier, hoffset⟩ := ih h
      refine ⟨hfound, offset, by omega, ?_, hoffset⟩
      intro earlier hkle hge
      rcases Nat.eq_or_lt_of_le hkle with rfl | hlater
      · exact hturn
      · exact hearlier earlier hlater hge

theorem firstUsable_none {offsets : List ℕ} (h : firstUsable size nextPath paths offsets = .ok none) :
    ∀ offset ∈ offsets, 0 ≤ turn size nextPath paths offset := by
  induction offsets with
  | nil => exact nofun
  | cons offset offsets ih =>
    obtain ⟨path, hpath, h⟩ := exists_ok_bind h
    split_ifs at h
    · cases h
    · exact forall_mem_cons.mpr ⟨pathAt_of_ok size nextPath paths hpath, ih h⟩

theorem firstUsable_of_reached (hne : paths ≠ []) {k m offset : ℕ} (hle : k ≤ offset) (hlt : offset < k + m)
    (hearlier : ∀ earlier, k ≤ earlier → earlier ≤ offset → 0 ≤ turn size nextPath paths earlier)
    (hpath : pathAt size nextPath paths offset = .ok path) (husable : pathIsUsable path (bestRTT paths) = true) :
    ∃ found, firstUsable size nextPath paths (range' k m) = .ok (some found) := by
  induction m generalizing k with
  | zero => omega
  | succ m ih =>
    obtain ⟨first, hfirst⟩ := exists_pathAt size nextPath paths hne (hearlier k (Nat.le_refl k) hle)
    rw [range'_succ, firstUsable, hfirst, bind_eq_of_ok rfl]
    split_ifs with hfirstUsable
    · exact ⟨first, rfl⟩
    · have hk : k ≠ offset := by
        rintro rfl
        obtain rfl : first = path := Except.ok.inj (hfirst.symm.trans hpath)
        exact hfirstUsable husable
      apply ih (by omega) (by omega)
      exact fun earlier hk' hge => hearlier earlier (by omega) hge

theorem firstUsable_returns (hne : paths ≠ []) {offsets : List ℕ}
    (hturn : ∀ offset ∈ offsets, 0 ≤ turn size nextPath paths offset) :
    ∃ result, firstUsable size nextPath paths offsets = .ok result := by
  induction offsets with
  | nil => exact ⟨none, rfl⟩
  | cons offset offsets ih =>
    obtain ⟨hoffset, hrest⟩ := forall_mem_cons.mp hturn
    obtain ⟨path, hpath⟩ := exists_pathAt size nextPath paths hne hoffset
    rw [firstUsable, hpath, bind_eq_of_ok rfl]
    split_ifs
    · exact ⟨some path, rfl⟩
    · exact ih hrest

def Reached : Prop :=
  ∃ offset < paths.length, (∀ earlier ≤ offset, 0 ≤ turn size nextPath paths earlier) ∧
    ∃ path, pathAt size nextPath paths offset = .ok path ∧ pathIsUsable path (bestRTT paths) = true

def FirstAcceptable : Prop :=
  (∀ offset < paths.length, 0 ≤ turn size nextPath paths offset) ∧
    ∃ path, pathAt size nextPath paths 0 = .ok path ∧ path.acceptable = true

theorem picks_acceptable_iff : ((∃ path ∈ paths, path.acceptable = true) →
      ∃ path, pickPath size nextPath paths = .ok path ∧ path.acceptable = true) ↔
    ((∃ path ∈ paths, path.acceptable = true) →
      paths.length = 1 ∨ Reached size nextPath paths ∨ FirstAcceptable size nextPath paths) := by
  apply imp_congr_right
  rintro ⟨good, hgood, hacceptable⟩
  have hne : paths ≠ [] := List.ne_nil_of_mem hgood
  have hlength : paths.length ≠ 0 := fun hzero => hne (List.length_eq_zero_iff.mp hzero)
  by_cases hone : paths.length = 1
  · obtain ⟨only, rfl⟩ := List.length_eq_one_iff.mp hone
    obtain rfl := List.mem_singleton.mp hgood
    exact ⟨fun _ => .inl rfl, fun _ => ⟨good, rfl, hacceptable⟩⟩
  rw [pickPath, if_neg hlength, if_neg hone, List.range_eq_range']
  constructor
  · rintro ⟨path, hpick, hpath⟩
    right
    obtain ⟨usable, husable, hpick⟩ := exists_ok_bind hpick
    cases usable with
    | some found =>
      left
      obtain ⟨hfound, offset, hlt, hearlier, hoffset⟩ := firstUsable_some size nextPath paths husable
      refine ⟨offset, by omega, ?_, found, hoffset, hfound⟩
      exact fun earlier hge => hearlier earlier (Nat.zero_le _) hge
    | none =>
      right
      refine ⟨?_, path, hpick, hpath⟩
      intro offset hoffset
      apply firstUsable_none size nextPath paths husable
      rwa [← List.range_eq_range', List.mem_range]
  · rintro (hlength | ⟨offset, hlt, hearlier, path, hpath, husable⟩ | ⟨hturn, path, hfirst, hpath⟩)
    · exact absurd hlength hone
    · obtain ⟨found, hfound⟩ := firstUsable_of_reached size nextPath paths hne (Nat.zero_le offset)
        (by omega : offset < 0 + paths.length) (fun earlier _ hge => hearlier earlier hge) hpath husable
      rw [hfound]
      exact ⟨found, rfl, acceptable_of_usable (firstUsable_some size nextPath paths hfound).1⟩
    · have hrange : ∀ offset ∈ List.range' 0 paths.length, 0 ≤ turn size nextPath paths offset := by
        intro offset hoffset
        rw [← List.range_eq_range', List.mem_range] at hoffset
        exact hturn offset hoffset
      obtain ⟨usable, husable⟩ := firstUsable_returns size nextPath paths hne hrange
      rw [husable]
      cases usable with
      | none => exact ⟨path, hfirst, hpath⟩
      | some found => exact ⟨found, rfl, acceptable_of_usable (firstUsable_some size nextPath paths husable).1⟩

def lossyAndSlow : List PathQuality := [⟨0, 20000000, 1000, 300⟩, ⟨1, 200000000, 1000, 0⟩]

theorem picks_lossy : (∃ path ∈ lossyAndSlow, path.acceptable = true) ∧
      pickPath .bits64 0 lossyAndSlow = .ok ⟨0, 20000000, 1000, 300⟩ ∧
      PathQuality.acceptable ⟨0, 20000000, 1000, 300⟩ = false := by
  decide +kernel

end Hydracore.Parasite.Relay
