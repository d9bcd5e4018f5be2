import Hydracore.Parasite.Obfs
import Mathlib.Data.List.Nodup

namespace Hydracore.Parasite.RTPCodec

open Formats List

structure WrapCall where
  now : ℤ
  payload : Bytes

def sealedNonces : RTPCodec → List WrapCall → List Bytes
  | _, [] => []
  | c, call :: rest =>
    match c.wrap call.now call.payload with
    | .error _ => sealedNonces c rest
    | .ok (_, c') => c.nonce call.now :: sealedNonces c' rest

def wrappable (payload : Bytes) : Bool :=
  0 < payload.length ∧ payload.length + 45 ≤ 65536

def sealedTimes (calls : List WrapCall) : List ℤ :=
  (calls.filter (fun call => wrappable call.payload)).map WrapCall.now

def clock90k (c : RTPCodec) (now : ℤ) : ℕ := (min (now - c.startedAt) (2 ^ 63 - 1)).toNat * 90000 / 1000000000

def advance (c : RTPCodec) (k : ℕ) : RTPCodec := { c with count := c.count + UInt64.ofNat k }

theorem wrap_error (c : RTPCodec) (now : ℤ) {payload : Bytes} (h : wrappable payload = false) :
    ∃ e, c.wrap now payload = .error e := by
  unfold wrap
  split_ifs with h0 h1
  · exact ⟨_, rfl⟩
  · exact ⟨_, rfl⟩
  · simp only [wrappable, decide_eq_false_iff_not, rtpTotalHeaderLength, rtpHeaderLength,
      rtpExtensionLength, aeadOverhead, defaultRTPPadding, maximumWirePacket] at h h1
    omega

theorem wrap_ok (c : RTPCodec) (now : ℤ) {payload : Bytes} (h : wrappable payload = true) :
    ∃ w n, c.wrap now payload = .ok (w, { c with count := c.count + 1, drawn := n }) := by
  simp only [wrappable, decide_eq_true_eq] at h
  unfold wrap
  rw [if_neg (by omega), if_neg (by
    simp only [rtpTotalHeaderLength, rtpHeaderLength, rtpExtensionLength, aeadOverhead,
      defaultRTPPadding, maximumWirePacket]
    omega)]
  exact ⟨_, _, rfl⟩

theorem sealedNonces_getElem? (c : RTPCodec) (calls : List WrapCall) (i : ℕ) :
    (sealedNonces c calls)[i]? = (sealedTimes calls)[i]?.map (fun t => (c.advance i).nonce t) := by
  induction calls generalizing c i with
  | nil => simp [sealedNonces, sealedTimes]
  | cons call rest ih =>
    cases hw : wrappable call.payload with
    | false =>
      obtain ⟨e, he⟩ := wrap_error c call.now hw
      simpa only [sealedNonces, he, sealedTimes, filter_cons, hw, Bool.false_eq_true, if_false] using ih c i
    | true =>
      obtain ⟨w, n, hok⟩ := wrap_ok c call.now hw
      simp only [sealedNonces, hok, sealedTimes, filter_cons, hw, if_true, map_cons]
      cases i with
      | zero => simp [advance]
      | succ i =>
        rw [getElem?_cons_succ, getElem?_cons_succ, ih]
        -- the drawn words do not enter the nonce, and the count has moved by one
        have hn : ∀ t, (advance { c with count := c.count + 1, drawn := n } i).nonce t =
            (c.advance (i + 1)).nonce t := by
          intro t
          have hk : c.count + 1 + UInt64.ofNat i = c.count + UInt64.ofNat (i + 1) := by
            rw [UInt64.ofNat_add, UInt64.add_assoc, UInt64.add_comm (UInt64.ofNat i)]
            rfl
          simp only [advance, nonce, sequence, timestamp, hk]
        simp only [sealedTimes, hn]

variable {n : ℕ}

theorem ticks_split (hn : n < 2 ^ 63) :
    (n / 1000000000 * 90000 % 2 ^ 64 + n % 1000000000 * 90000 % 2 ^ 64 / 1000000000) % 2 ^ 64 =
      n * 90000 / 1000000000 := by
  obtain ⟨q, hq⟩ : ∃ q, q = n / 1000000000 := ⟨_, rfl⟩
  obtain ⟨r, hr⟩ : ∃ r, r = n % 1000000000 := ⟨_, rfl⟩
  rw [← hq, ← hr, Nat.mod_eq_of_lt (by omega : q * 90000 < 2 ^ 64),
    Nat.mod_eq_of_lt (by omega : r * 90000 < 2 ^ 64),
    Nat.mod_eq_of_lt (by omega : q * 90000 + r * 90000 / 1000000000 < 2 ^ 64)]
  omega

theorem rtpTicks_toNat {e : ℤ} (h0 : 0 ≤ e) (h1 : e < 2 ^ 63) :
    (rtpTicks e).toNat = e.toNat * 90000 / 1000000000 := by
  obtain ⟨n, rfl⟩ := Int.eq_ofNat_of_zero_le h0
  have hn : n < 2 ^ 63 := by exact_mod_cast h1
  have hcast (k : ℕ) (hk : k < 2 ^ 64) : (toUint64 (k : ℤ)).toNat = k := by
    simp only [toUint64, UInt64.ofInt, UInt64.toNat_ofNat']
    omega
  have hsec : (toUint64 ((n : ℤ).tdiv second)).toNat = n / 1000000000 := hcast (n / 1000000000) (by omega)
  have hnsec : (toUint64 ((n : ℤ).tmod second)).toNat = n % 1000000000 := hcast (n % 1000000000) (by omega)
  simp only [rtpTicks]
  rw [UInt64.toNat_add, UInt64.toNat_mul, UInt64.toNat_div, UInt64.toNat_mul, hsec, hnsec]
  exact ticks_split hn

theorem timestamp_toNat (c : RTPCodec) {t : ℤ} (ht : c.startedAt ≤ t) :
    (c.timestamp t).toNat = (c.initialTS.toNat + c.clock90k t) % 2 ^ 32 := by
  have he : since c.startedAt t = min (t - c.startedAt) (2 ^ 63 - 1) := by
    unfold since
    omega
  have hticks := rtpTicks_toNat (e := since c.startedAt t) (by rw [he]; omega) (by rw [he]; omega)
  rw [timestamp, UInt32.toNat_add, UInt64.toNat_toUInt32, hticks, he]
  simp only [clock90k, Nat.add_mod_mod]

theorem sequence_advance_toNat (c : RTPCodec) (i : ℕ) :
    (c.advance i).sequence.toNat = (c.initialSeq.toNat + c.count.toNat + i) % 2 ^ 16 := by
  simp only [sequence, advance, UInt16.toNat_add, UInt64.toNat_toUInt16, UInt64.toNat_add, UInt64.toNat_ofNat']
  omega

theorem nonce_eq_iff (c d : RTPCodec) (hs : c.ssrc = d.ssrc) (t u : ℤ) :
    c.nonce t = d.nonce u ↔ c.sequence.toNat = d.sequence.toNat ∧ (c.timestamp t).toNat = (d.timestamp u).toNat := by
  constructor
  · intro h
    have hsplit : bigEndian 2 c.sequence.toNat ++ ([0, 0] ++ bigEndian 4 (c.timestamp t).toNat) =
        bigEndian 2 d.sequence.toNat ++ ([0, 0] ++ bigEndian 4 (d.timestamp u).toNat) := by
      simpa only [nonce, buildRTPNonce, hs, append_assoc, append_cancel_left_eq] using h
    obtain ⟨hseq, hrest⟩ := append_inj hsplit rfl
    have hts := append_cancel_left hrest
    exact ⟨bigEndian_injective c.sequence.toNat_lt d.sequence.toNat_lt hseq,
      bigEndian_injective (c.timestamp t).toNat_lt (d.timestamp u).toNat_lt hts⟩
  · rintro ⟨hseq, hts⟩
    simp only [nonce, buildRTPNonce, hs, hseq, hts]

theorem nonce_collision (c : RTPCodec) {i j : ℕ} (hij : i < j) {t u : ℤ}
    (ht : c.startedAt ≤ t) (hu : c.startedAt ≤ u) : (c.advance i).nonce t = (c.advance j).nonce u ↔
      65536 ∣ j - i ∧ c.clock90k t % 2 ^ 32 = c.clock90k u % 2 ^ 32 := by
  have hti := timestamp_toNat (c.advance i) ht
  have huj := timestamp_toNat (c.advance j) hu
  rw [nonce_eq_iff (c.advance i) (c.advance j) rfl, sequence_advance_toNat, sequence_advance_toNat, hti, huj]
  simp only [advance, clock90k]
  omega

theorem nonces_unique_iff (c : RTPCodec) (calls : List WrapCall) (hstart : ∀ call ∈ calls, c.startedAt ≤ call.now) :
    (sealedNonces c calls).Nodup ↔
      ∀ i j t u, i < j → (sealedTimes calls)[i]? = some t → (sealedTimes calls)[j]? = some u →
        65536 ∣ j - i → c.clock90k t % 2 ^ 32 ≠ c.clock90k u % 2 ^ 32 := by
  have hle (i : ℕ) (t : ℤ) (h : (sealedTimes calls)[i]? = some t) : c.startedAt ≤ t := by
    obtain ⟨call, hcall, rfl⟩ := List.mem_map.mp (List.mem_of_getElem? h)
    exact hstart call (List.mem_of_mem_filter hcall)
  rw [List.nodup_iff_getElem?_ne_getElem?]
  simp only [sealedNonces_getElem?]
  constructor
  · intro h i j t u hij hi hj hdvd hclock
    have hlen : j < (sealedNonces c calls).length := by
      by_contra hge
      have hnone := List.getElem?_eq_none (Nat.le_of_not_lt hge)
      rw [sealedNonces_getElem?, hj] at hnone
      simp at hnone
    apply h i j hij hlen
    rw [hi, hj, Option.map_some, Option.map_some,
      (nonce_collision c hij (hle i t hi) (hle j u hj)).mpr ⟨hdvd, hclock⟩]
  · intro h i j hij hlen heq
    have hj := List.getElem?_eq_getElem hlen
    rw [sealedNonces_getElem?] at hj
    obtain ⟨u, hu, -⟩ := Option.map_eq_some_iff.mp hj
    rw [hu, Option.map_some] at heq
    obtain ⟨t, ht, hn⟩ := Option.map_eq_some_iff.mp heq
    obtain ⟨hdvd, hclock⟩ := (nonce_collision c hij (hle i t ht) (hle j u hu)).mp hn
    exact h i j t u hij ht hu hdvd hclock

def plainCodec : RTPCodec :=
  ⟨⟨fun _ plaintext _ => plaintext ++ List.replicate 16 0⟩, 7, 0, 0, 96, 0, 0, fun _ => 0, 0⟩

theorem nonces_unique_short : (sealedNonces plainCodec [⟨0, [1]⟩, ⟨0, [2]⟩, ⟨20000000, [3]⟩]).Nodup := by
  apply (nonces_unique_iff plainCodec _ (by decide)).mpr
  have htimes : sealedTimes [⟨0, [1]⟩, ⟨0, [2]⟩, ⟨20000000, [3]⟩] = [0, 0, 20000000] := by decide
  intro i j t u hij hi hj hdvd
  have hlt := (List.getElem?_eq_some_iff.mp hj).1
  rw [htimes] at hlt
  simp only [List.length_cons, List.length_nil] at hlt
  omega

def longRun (n : ℕ) : List WrapCall :=
  (List.range n).map (fun k : ℕ => ⟨k * 728000000, [1]⟩) ++ [⟨47721858844445, [1]⟩]

theorem mem_longRun {call : WrapCall} (h : call ∈ longRun n) :
    (∃ k < n, call = ⟨k * 728000000, [1]⟩) ∨ call = ⟨47721858844445, [1]⟩ := by
  simp only [longRun, mem_append, mem_map, mem_singleton, mem_range] at h
  rcases h with ⟨k, hk, rfl⟩ | rfl
  · exact .inl ⟨k, hk, rfl⟩
  · exact .inr rfl

theorem longRun_times (n : ℕ) : sealedTimes (longRun n) =
    (range n).map (fun k : ℕ => (k : ℤ) * 728000000) ++ [47721858844445] := by
  have hall : (longRun n).filter (fun call => wrappable call.payload) = longRun n := by
    apply filter_eq_self.mpr
    intro call hc
    rcases mem_longRun hc with ⟨k, -, rfl⟩ | rfl <;> rfl
  rw [sealedTimes, hall, longRun, map_append, map_map]
  rfl

theorem longRun_first (h : 0 < n) : (sealedTimes (longRun n))[0]? = some 0 := by
  rw [longRun_times, getElem?_append_left (by simpa using h)]
  simp [h]

theorem longRun_last (n : ℕ) : (sealedTimes (longRun n))[n]? = some 47721858844445 := by
  rw [longRun_times, getElem?_append_right (by simp)]
  simp

theorem longRun_sorted (h : n ≤ 65536) : (longRun n).Pairwise (fun a b => a.now ≤ b.now) := by
  rw [longRun, pairwise_append]
  refine ⟨?_, pairwise_singleton _ _, ?_⟩
  · rw [pairwise_map]
    exact pairwise_lt_range.imp (fun {a b} hab => by dsimp only; omega)
  · intro a ha b hb
    obtain ⟨k, hk, rfl⟩ := mem_map.mp ha
    obtain rfl := mem_singleton.mp hb
    have := mem_range.mp hk
    dsimp only
    omega

theorem longRun_started : ∀ call ∈ longRun n, plainCodec.startedAt ≤ call.now := by
  intro call hc
  rcases mem_longRun hc with ⟨k, -, rfl⟩ | rfl
  · exact Int.mul_nonneg (Int.natCast_nonneg k) (by decide)
  · exact (by decide : (0 : ℤ) ≤ 47721858844445)

theorem nonce_reused : ¬ ∀ (c : RTPCodec) (calls : List WrapCall),
    calls.Pairwise (fun a b => a.now ≤ b.now) → (∀ call ∈ calls, c.startedAt ≤ call.now) →
      (sealedNonces c calls).Nodup := by
  intro hunique
  obtain ⟨n, hn⟩ : ∃ n, n = 65536 := ⟨_, rfl⟩
  have hnodup := hunique plainCodec (longRun n) (longRun_sorted (by omega)) longRun_started
  have hfirst := longRun_first (n := n) (by omega)
  have hlast := longRun_last n
  have hcollide : (plainCodec.advance 0).nonce 0 = (plainCodec.advance n).nonce 47721858844445 :=
    (nonce_collision plainCodec (by omega) (by decide) (by decide)).mpr
      ⟨by rw [hn, Nat.sub_zero], rfl⟩
  have hlen : n < (sealedNonces plainCodec (longRun n)).length := by
    by_contra hge
    have hnone := List.getElem?_eq_none (Nat.le_of_not_lt hge)
    rw [sealedNonces_getElem?, hlast] at hnone
    simp at hnone
  apply List.nodup_iff_getElem?_ne_getElem?.mp hnodup 0 n (by omega) hlen
  rw [sealedNonces_getElem?, sealedNonces_getElem?, hfirst, hlast, Option.map_some, Option.map_some, hcollide]

end Hydracore.Parasite.RTPCodec
