import Hydracore.Bond.Ratios
import Hydracore.Systems.Outcomes

namespace Hydracore.Bond

open Formats Systems List Outbound Slices AList

theorem splitFrom_sum (number remaining : ℤ) {ratios : List UInt8} (h : ratios ≠ []) :
    (splitFrom number remaining ratios).sum = remaining := by
  induction ratios generalizing remaining with
  | nil => exact absurd rfl h
  | cons ratio ratios ih =>
    cases ratios with
    | nil => simp [splitFrom]
    | cons next ratios =>
      rw [splitFrom, sum_cons, ih _ (cons_ne_nil _ _)]
      · omega
      · exact cons_ne_nil _ _

theorem splitFrom_nonneg {number remaining : ℤ} {ratios : List UInt8} (hnumber : 0 ≤ number)
    (h : number * ((ratios.map UInt8.toNat).sum : ℕ) ≤ 100 * remaining) :
    ∀ part ∈ splitFrom number remaining ratios, 0 ≤ part := by
  induction ratios generalizing remaining with
  | nil => nofun
  | cons ratio ratios ih =>
    have hshare : 0 ≤ number * (ratio.toNat : ℤ) := Int.mul_nonneg hnumber (Int.natCast_nonneg _)
    have hrest : 0 ≤ number * ((ratios.map UInt8.toNat).sum : ℕ) := Int.mul_nonneg hnumber (Int.natCast_nonneg _)
    rw [map_cons, sum_cons, Nat.cast_add, mul_add] at h
    cases ratios with
    | nil =>
      intro part hpart
      rw [mem_singleton.mp hpart]
      omega
    | cons next ratios =>
      rw [splitFrom]
      · rw [forall_mem_cons]
        refine ⟨by omega, ih ?_⟩
        omega
      · exact cons_ne_nil _ _

theorem totalRatio_eq (ratios : List UInt8) : totalRatio ratios = UInt8.ofNat (ratios.map UInt8.toNat).sum := by
  have hfold (start : UInt8) : ratios.foldl (· + ·) start = start + UInt8.ofNat (ratios.map UInt8.toNat).sum := by
    induction ratios generalizing start with
    | nil => simp
    | cons ratio ratios ih => simp [ih, UInt8.ofNat_add, UInt8.add_assoc]
  rw [totalRatio, hfold, UInt8.zero_add]

theorem eq_of_getD {β : Type} {l l' : List β} (d : β) (hlength : l.length = l'.length)
    (h : ∀ i < l'.length, l[i]? = some (l'.getD i d)) : l = l' := by
  refine ext_getElem? fun i => ?_
  by_cases hi : i < l'.length
  · rw [h i hi, getD_eq_getElem?_getD, getElem?_eq_getElem hi, Option.getD_some]
  · rw [getElem?_eq_none (by omega), getElem?_eq_none (by omega)]

theorem map_getD_range (ratios : List UInt8) : (range ratios.length).map (fun i => ratios.getD i 0) = ratios := by
  apply eq_of_getD 0
  · simp
  · intro i hi
    simp [hi]

section

variable {l : List (Sigma fun _ : UInt8 => RatioConn)} {s s' : Slices}

theorem slices_totals (h : l.foldlM put s = some s') :
    s'.totalDownloadRatio = s.totalDownloadRatio + UInt8.ofNat (l.map fun e => e.2.downloadRatio.toNat).sum ∧
      s'.totalUploadRatio = s.totalUploadRatio + UInt8.ofNat (l.map fun e => e.2.uploadRatio.toNat).sum := by
  induction l generalizing s with
  | nil =>
    cases h
    simp
  | cons entry l ih =>
    obtain ⟨t, ht, h⟩ := Option.bind_eq_some_iff.mp h
    obtain ⟨_, ⟨⟩⟩ := Option.ite_none_right_eq_some.mp ht
    obtain ⟨hdownload, hupload⟩ := ih h
    rw [hdownload, hupload]
    simp [UInt8.ofNat_add, UInt8.add_assoc]

def Slices.Even (s : Slices) (size : ℕ) : Prop :=
  s.conns.length = size ∧ s.downloadRatios.length = size ∧ s.uploadRatios.length = size

def Slices.Has (s : Slices) (i : ℕ) (r : RatioConn) : Prop :=
  s.conns[i]? = some (some r.conn) ∧ s.downloadRatios[i]? = some r.downloadRatio ∧
    s.uploadRatios[i]? = some r.uploadRatio

theorem Slices.put_spec {entry : Sigma fun _ : UInt8 => RatioConn} (h : s.put entry = some s') {size : ℕ}
    (heven : s.Even size) : s'.Even size ∧ s'.Has entry.1.toNat entry.2 ∧
      ∀ i r, i ≠ entry.1.toNat → s.Has i r → s'.Has i r := by
  obtain ⟨hlt, ⟨⟩⟩ := Option.ite_none_right_eq_some.mp h
  obtain ⟨hconns, hdownload, hupload⟩ := heven
  rw [hconns] at hlt
  refine ⟨by simp [Even, hconns, hdownload, hupload], by simp [Has, hconns, hdownload, hupload, hlt], ?_⟩
  intro i r hne hhas
  simpa only [Has, getElem?_set_ne (Ne.symm hne)] using hhas

theorem slices_has (h : l.foldlM put s = some s') {size : ℕ} (heven : s.Even size) :
    s'.Even size ∧ (∀ i r, (∀ entry ∈ l, i ≠ entry.1.toNat) → s.Has i r → s'.Has i r) ∧
      (l.NodupKeys → ∀ entry ∈ l, s'.Has entry.1.toNat entry.2) := by
  induction l generalizing s with
  | nil =>
    cases h
    exact ⟨heven, fun _ _ _ hhas => hhas, nofun⟩
  | cons entry l ih =>
    obtain ⟨t, ht, h⟩ := Option.bind_eq_some_iff.mp h
    obtain ⟨hteven, hthas, htkeeps⟩ := put_spec ht heven
    obtain ⟨hsize, hkeeps, hall⟩ := ih h hteven
    refine ⟨hsize, ?_, ?_⟩
    · intro i r hfresh hhas
      rw [forall_mem_cons] at hfresh
      exact hkeeps i r hfresh.2 (htkeeps i r hfresh.1 hhas)
    · intro hkeys
      rw [nodupKeys_cons] at hkeys
      rw [forall_mem_cons]
      refine ⟨hkeeps _ _ (fun other hother heq => ?_) hthas, hall hkeys.2⟩
      exact hkeys.1 (UInt8.toNat_inj.mp heq ▸ mem_keys_of_mem hother)

end

variable {ω κ α : Type}

def storeAll (ratioConns : RatioConns) (arrivals : List (ℕ × Request α)) : RatioConns :=
  arrivals.foldl (fun ratioConns arrival => ratioConns.store arrival.1 arrival.2) ratioConns

theorem notMem_store {ratioConns : RatioConns} {conn : ℕ} {request : Request α} {index : UInt8}
    (hne : index ≠ request.index) (hfresh : index ∉ ratioConns) : index ∉ ratioConns.store conn request := by
  intro hmem
  obtain heq | hmem := (mem_insert _).mp hmem
  · exact hne heq
  · exact hfresh hmem

section

variable {ratioConns : RatioConns} {arrivals : List (ℕ × Request α)}

def entryOf (arrival : ℕ × Request α) : Sigma fun _ : UInt8 => RatioConn :=
  ⟨arrival.2.index, arrival.1, arrival.2.downloadRatio, arrival.2.uploadRatio⟩

theorem storeAll_entries (hfresh : ∀ arrival ∈ arrivals, arrival.2.index ∉ ratioConns)
    (hdistinct : (arrivals.map fun arrival => arrival.2.index).Nodup) :
    (storeAll ratioConns arrivals).entries.Perm (arrivals.map entryOf ++ ratioConns.entries) := by
  induction arrivals generalizing ratioConns with
  | nil => exact .refl _
  | cons arrival arrivals ih =>
    rw [forall_mem_cons] at hfresh
    rw [map_cons, nodup_cons] at hdistinct
    have hentries : (ratioConns.store arrival.1 arrival.2).entries = entryOf arrival :: ratioConns.entries :=
      entries_insert_of_notMem hfresh.1
    refine (ih (fun other hother => ?_) hdistinct.2).trans ?_
    · exact notMem_store (fun heq => hdistinct.1 (heq ▸ mem_map_of_mem hother)) (hfresh.2 other hother)
    · rw [hentries, map_cons, cons_append]
      exact perm_middle

def Collected.bond : Collected → Option BondedConn
  | bonded bondedConn => some bondedConn
  | _ => none

theorem assemble_ne_waiting (other : RatioConns) : ratioConns.assemble ≠ .waiting other := by
  unfold RatioConns.assemble
  cases ratioConns.slices with
  | none => nofun
  | some slices =>
    dsimp only
    split_ifs <;> nofun

theorem collectAll_eq (hfresh : ∀ arrival ∈ arrivals, arrival.2.index ∉ ratioConns)
    (hdistinct : (arrivals.map fun arrival => arrival.2.index).Nodup) (hsome : arrivals ≠ [])
    (hcount : ∀ arrival ∈ arrivals, arrival.2.count.toNat = ratioConns.size + arrivals.length) :
    collectAll ratioConns arrivals = (storeAll ratioConns arrivals).assemble.bond := by
  induction arrivals generalizing ratioConns with
  | nil => exact absurd rfl hsome
  | cons arrival arrivals ih =>
    rw [forall_mem_cons] at hfresh hcount
    rw [map_cons, nodup_cons] at hdistinct
    have hsize : (ratioConns.store arrival.1 arrival.2).size = ratioConns.size + 1 :=
      Dict.size_insert (lookup_eq_none.mpr hfresh.1) _
    rw [collectAll, collect, hsize, hcount.1, length_cons]
    cases arrivals with
    | nil =>
      simp only [length_nil, Nat.zero_add, if_true, storeAll, foldl_cons, foldl_nil]
      cases hassembled : (ratioConns.store arrival.1 arrival.2).assemble with
      | waiting other => exact absurd hassembled (assemble_ne_waiting other)
      | invalid | bonded | panicked => rfl
    | cons next rest =>
      rw [if_neg (by simp)]
      refine ih (fun other hother => ?_) hdistinct.2 (cons_ne_nil _ _) fun other hother => ?_
      · exact notMem_store (fun heq => hdistinct.1 (heq ▸ mem_map_of_mem hother)) (hfresh.2 other hother)
      · rw [hcount.2 other hother, hsize]
        simp only [length_cons]
        omega

end

structure Outbound.Checked (outbound : Outbound κ) : Prop where
  downloads : outbound.downloadRatios.length = outbound.outbounds.length
  uploads : outbound.uploadRatios.length = outbound.outbounds.length
  totals : totalRatio outbound.downloadRatios = 100 ∧ totalRatio outbound.uploadRatios = 100

variable {outbound : Outbound κ}

theorem Outbound.checked_of_new {create : ω → Option κ} {options : List (BondOutbound ω)}
    (h : newOutbound create options = .ok outbound) : outbound.Checked := by
  unfold newOutbound at h
  cases hcreate : (repeated options).mapM fun o => create o.outbound with
  | none => simp [hcreate] at h
  | some outbounds =>
    simp only [hcreate] at h
    split_ifs at h with htotals
    cases h
    have hlength := (mapM_eq_some_iff.mp hcreate).length_eq
    rw [not_or, not_not, not_not] at htotals
    exact ⟨by simpa using hlength, by simpa using hlength, htotals⟩

theorem Outbound.Checked.ne_nil (h : outbound.Checked) : outbound.outbounds ≠ [] := by
  intro hnil
  have hlength := h.downloads
  rw [hnil, length_nil, length_eq_zero_iff] at hlength
  have htotal := h.totals.1
  rw [hlength] at htotal
  exact absurd htotal (by decide)

variable {streams arrivals : List (ℕ × Bytes)} {serializer : AddressSerializer α}

section

variable {outbound : Outbound κ} (uuid : UUID) (destination : α)

theorem requests_index (hfew : outbound.outbounds.length < 256) :
    ((outbound.requests uuid destination).map fun sent => sent.2.index).Nodup := by
  rw [requests, map_map]
  refine (nodup_map_iff_inj_on nodup_range).mpr fun i hi j hj heq => ?_
  rw [mem_range] at hi hj
  have := congrArg UInt8.toNat heq
  simpa [request, Nat.mod_eq_of_lt (hi.trans hfew), Nat.mod_eq_of_lt (hj.trans hfew)] using this

variable {uuid destination}

theorem exists_reads
    (hdial : outbound.dial serializer uuid destination = some streams) (hperm : arrivals.Perm streams) :
    ∃ reads, reads.Perm (outbound.requests uuid destination) ∧
      serverConn serializer arrivals = collectAll ∅ reads := by
  have hread : Forall₂ (fun arrival sent => ((readRequest serializer arrival.2).toOption.map fun read =>
      (arrival.1, read.1)) = some sent) streams (outbound.requests uuid destination) := by
    refine (mapM_eq_some_iff.mp hdial).flip.imp fun stream sent hsent => ?_
    obtain ⟨b, hb, rfl⟩ := Option.map_eq_some_iff.mp hsent
    have hback := readRequest_append [] hb
    rw [append_nil] at hback
    rw [hback]
    rfl
  obtain ⟨reads, hreads, hback⟩ := perm_comp_forall₂ hperm hread
  refine ⟨reads, hback, ?_⟩
  rw [serverConn, mapM_eq_some_iff.mpr hreads, Option.bind_some]

variable {reads : List (ℕ × Request α)} (hreads : reads.Perm (outbound.requests uuid destination))
  (hfew : outbound.outbounds.length < 256)
include hreads hfew

theorem reads_entries : (storeAll ∅ reads).entries.Perm ((outbound.requests uuid destination).map entryOf) := by
  have hentries : (storeAll ∅ reads).entries.Perm (reads.map entryOf ++ (∅ : RatioConns).entries) :=
    storeAll_entries (fun _ _ => notMem_empty _)
      ((hreads.map _).nodup_iff.mpr (requests_index uuid destination hfew))
  rw [empty_entries, append_nil] at hentries
  exact hentries.trans (hreads.map _)

theorem collectAll_reads (hchecked : outbound.Checked) : collectAll ∅ reads = (storeAll ∅ reads).assemble.bond := by
  have hlength : reads.length = outbound.outbounds.length := by
    rw [hreads.length_eq, requests, length_map, length_range]
  apply collectAll_eq
  · exact fun _ _ => notMem_empty _
  · exact (hreads.map _).nodup_iff.mpr (requests_index uuid destination hfew)
  · rintro rfl
    exact hchecked.ne_nil (length_eq_zero_iff.mp hlength.symm)
  · intro arrival harrival
    obtain ⟨i, _, rfl⟩ := mem_map.mp (hreads.mem_iff.mp harrival)
    rw [hlength]
    simp [request, Nat.mod_eq_of_lt hfew]

theorem assemble_reads (hchecked : outbound.Checked) : (storeAll ∅ reads).assemble =
    .bonded ⟨(range outbound.outbounds.length).map some, outbound.uploadRatios, outbound.downloadRatios⟩ := by
  have hentries := reads_entries hreads hfew
  have hsize : (storeAll ∅ reads).size = outbound.outbounds.length := by
    rw [Dict.size, hentries.length_eq, length_map, requests, length_map, length_range]
  have hbelow : ∀ index ∈ (storeAll ∅ reads).keys, index.toNat < (storeAll ∅ reads).size := by
    intro index hindex
    obtain ⟨entry, hentry, rfl⟩ := mem_map.mp hindex
    obtain ⟨sent, hsent, rfl⟩ := mem_map.mp (hentries.mem_iff.mp hentry)
    obtain ⟨i, hi, rfl⟩ := mem_map.mp hsent
    rw [hsize]
    simpa [entryOf, request, Nat.mod_eq_of_lt ((mem_range.mp hi).trans hfew)] using hi
  obtain ⟨slices, hslices, _⟩ := RatioConns.exists_slices hbelow
  have hmake : (Slices.make (storeAll ∅ reads).size).Even outbound.outbounds.length := by
    simp [Slices.Even, Slices.make, hsize]
  obtain ⟨heven, _, hhas⟩ := slices_has hslices hmake
  have hat (i : ℕ) (hi : i < outbound.outbounds.length) :
      slices.Has i ⟨i, outbound.uploadRatios.getD i 0, outbound.downloadRatios.getD i 0⟩ := by
    have hmem := mem_map_of_mem (f := entryOf)
      (mem_map_of_mem (f := outbound.request uuid destination) (mem_range.mpr hi))
    have hindex := hhas (storeAll ∅ reads).nodupKeys _ (hentries.mem_iff.mpr hmem)
    simpa [entryOf, request, Nat.mod_eq_of_lt (hi.trans hfew)] using hindex
  have hbonded : slices.toBondedConn =
      ⟨(range outbound.outbounds.length).map some, outbound.uploadRatios, outbound.downloadRatios⟩ := by
    obtain ⟨hconns, hdownloads, huploads⟩ := heven
    rw [BondedConn.mk.injEq]
    refine ⟨?_, ?_, ?_⟩
    · refine eq_of_getD none (by simpa using hconns) fun i hi => ?_
      simp only [length_map, length_range] at hi
      simp [(hat i hi).1, hi]
    · refine eq_of_getD 0 (hdownloads.trans hchecked.uploads.symm) fun i hi => ?_
      exact (hat i (hchecked.uploads ▸ hi)).2.1
    · refine eq_of_getD 0 (huploads.trans hchecked.downloads.symm) fun i hi => ?_
      exact (hat i (hchecked.downloads ▸ hi)).2.2
  obtain ⟨hdownload, hupload⟩ := slices_totals hslices
  have hdownloads : slices.totalDownloadRatio = 100 := by
    rw [hdownload, (hentries.map _).sum_eq, ← hchecked.totals.2, totalRatio_eq, ← map_getD_range outbound.uploadRatios,
      hchecked.uploads]
    simp [make, requests, Function.comp_def, entryOf, request]
  have huploads : slices.totalUploadRatio = 100 := by
    rw [hupload, (hentries.map _).sum_eq, ← hchecked.totals.1, totalRatio_eq, ← map_getD_range outbound.downloadRatios,
      hchecked.downloads]
    simp [make, requests, Function.comp_def, entryOf, request]
  simp only [RatioConns.assemble, hslices, hdownloads, huploads, ne_eq, not_true_eq_false, or_self, if_false, hbonded]

end

theorem serverConn_eq (hchecked : outbound.Checked) (hfew : outbound.outbounds.length < 256) {uuid : UUID} {destination : α}
    (hdial : outbound.dial serializer uuid destination = some streams) (hperm : arrivals.Perm streams) :
    serverConn serializer arrivals = some
      ⟨(range outbound.outbounds.length).map some, outbound.uploadRatios, outbound.downloadRatios⟩ := by
  obtain ⟨reads, hreads, hserver⟩ := exists_reads hdial hperm
  rw [hserver, collectAll_reads hreads hfew hchecked, assemble_reads hreads hfew hchecked, Collected.bond]

end Hydracore.Bond
