import Hydracore.Tlsfragment.Splitting

namespace Hydracore.Tlsfragment

open Formats Systems List Option

variable {publicSuffix : Bytes → Bytes} {b : Bytes} {c : Conn} {name : MyServerName}

def IsRecord (b frame : Bytes) : Prop :=
  ∃ payload, payload ≠ [] ∧ payload.length < 65536 ∧ frame = b.take 3 ++ bigEndian 2 payload.length ++ payload

def Carries (b : Bytes) (inRecords : Prop) (writes : List (List Bytes)) : Prop :=
  (inRecords → (∀ frame ∈ writes.flatten, IsRecord b frame) ∧
    writes.flatten.flatMap (·.drop recordLayerHeaderLen) = b.drop recordLayerHeaderLen) ∧
  (¬inRecords → writes.flatten.flatten = b)

structure Transparent (publicSuffix : Bytes → Bytes) (c : Conn) (b : Bytes) : Prop where
  terminates : ∃ fuel, (indexTLSServerName fuel b).isSome = true
  carries : ∀ intn fuel found, indexTLSServerName fuel b = some found →
    ∃ writes, c.write fuel publicSuffix intn b = some (some writes) ∧
      Carries b (c.splitRecord = true ∧ found.isSome = true) writes

def Splittable (b : Bytes) (splitRecord : Bool) (start : ℕ) (splits : List Bytes) : Prop :=
  splits ≠ [] ∧ (∀ split ∈ splits, split ≠ []) ∧
  (splitRecord = false → start + span splits ≤ b.length + 1) ∧
  (splitRecord = true → start + span splits ≤ b.length ∧ start + (splits.headD []).length ≤ 65541 ∧
    b.length < start + lastOffset splits + 65536)

theorem isRecord_record {payload : Bytes} :
    IsRecord b (record b payload) ↔ payload ≠ [] ∧ payload.length < 65536 := by
  constructor
  · rintro ⟨other, hne, hlt, heq⟩
    simp only [record, append_assoc, append_cancel_left_eq] at heq
    obtain ⟨-, rfl⟩ := append_inj heq rfl
    exact ⟨hne, hlt⟩
  · rintro ⟨hne, hlt⟩
    refine ⟨payload, hne, hlt, ?_⟩
    rw [record, Nat.mod_eq_of_lt hlt]

theorem record_drop {payload : Bytes} (h : 3 ≤ b.length) : (record b payload).drop recordLayerHeaderLen = payload := by
  apply drop_left'
  rw [length_append, length_take, bigEndian_length, Nat.min_eq_left h]
  rfl

variable {index : ℕ}

theorem slice_header (h : 5 ≤ index) (hb : index ≤ b.length) :
    slice (field b 0 index) recordLayerHeaderLen (field b 0 index).length = some (field b 5 index) := by
  have hlength : (field b 0 index).length = index := field_length hb
  rw [slice_of_le (by rw [hlength]; exact h) le_rfl, field, take_length, field, drop_zero]
  rfl

section Payloads

variable {splitRecord : Bool} {start : ℕ} {splits : List Bytes}

theorem Splittable.plain (h : Splittable b false start splits) (intn : ℕ → ℕ) :
    ∃ indexes parts, splitIndexes intn 0 start splits = some indexes ∧ payloads b false indexes = some parts ∧
      parts.flatten = b := by
  obtain ⟨hne, hlabels, hplain, -⟩ := h
  obtain ⟨indexes, hindexes, hplaced⟩ := splitIndexes_placed intn 0 start hlabels
  obtain ⟨parts, hparts, hflat⟩ := cut_of_placed hplaced (Nat.zero_le _) (Nat.zero_le _) fun _ => hplain rfl
  refine ⟨indexes, parts, hindexes, ?_, hflat⟩
  cases hplaced with
  | nil => exact absurd rfl hne
  | cons => exact hparts

theorem Splittable.inRecords (h : Splittable b true start splits) (hstart : 5 < start) (hspan : span splits < 65536)
    (intn : ℕ → ℕ) :
    ∃ indexes parts, splitIndexes intn 0 start splits = some indexes ∧ payloads b true indexes = some parts ∧
      parts.flatten = b.drop recordLayerHeaderLen ∧ ∀ part ∈ parts, part ≠ [] ∧ part.length < 65536 := by
  obtain ⟨hne, hlabels, -, hrecord⟩ := h
  obtain ⟨hend, hfirst, hlast⟩ := hrecord rfl
  obtain ⟨indexes, hindexes, hplaced⟩ := splitIndexes_placed intn 0 start hlabels
  obtain ⟨parts, hparts, hflat⟩ :=
    cut_of_placed hplaced (show 5 ≤ start by omega) (show 5 ≤ b.length by omega) fun _ => by omega
  cases hplaced with
  | nil => exact absurd rfl hne
  | @cons _ index split splits indexes hge hlt rest =>
    rw [headD_cons] at hfirst
    have hsplit := length_le_span split splits
    rw [cut, slice_of_le (by omega) (by omega), bind_some] at hparts
    refine ⟨index :: indexes, parts, hindexes, ?_, hflat, ?_⟩
    · rw [payloads, slice_of_le (Nat.zero_le _) (by omega)]
      simp only [bind_some, if_true, slice_header (show 5 ≤ index by omega) (show index ≤ b.length by omega), hparts]
    · obtain ⟨others, hothers, rfl⟩ := map_eq_some_iff.mp hparts
      have hlength : (field b 5 index).length = index - 5 := field_length (by omega)
      refine forall_mem_cons.mpr ⟨⟨?_, by omega⟩, ?_⟩
      · apply ne_nil_of_length_pos
        omega
      · refine parts_of_cut rest (by omega) (by omega) (fun hs => ?_) (fun hs => ?_) hothers
        · rw [span_cons hs] at hend hspan
          rw [lastOffset_cons hs] at hlast
          omega
        · rw [hs, lastOffset] at hlast
          omega

def largest (splits : List Bytes) (i : ℕ) : ℕ := (splits[i]?.getD []).length - 1

theorem ends_of_splits {intn : ℕ → ℕ} {parts : List Bytes} {indexes : List ℕ} {split last : Bytes}
    (hindexes : splitIndexes intn 0 start (split :: splits) = some indexes)
    (hlast : (split :: splits).getLast? = some last) (hparts : payloads b splitRecord indexes = some parts) :
    start + lastOffset (split :: splits) + intn splits.length % last.length ≤ b.length ∧
    b.drop (start + lastOffset (split :: splits) + intn splits.length % last.length) ∈ parts ∧
    (splitRecord = true → ∃ part ∈ parts, part.length = start + intn 0 % split.length - 5) := by
  have hend := getLast_splitIndexes hindexes hlast
  rw [splitIndexes] at hindexes
  split_ifs at hindexes
  obtain ⟨rest, -, rfl⟩ := map_eq_some_iff.mp hindexes
  rw [length_cons, Nat.zero_add, Nat.add_sub_cancel] at hend
  exact ends_of_payloads hparts rfl hend

theorem splittable_of_parts (h : ∀ intn, ∃ indexes parts, splitIndexes intn 0 start splits = some indexes ∧
    payloads b splitRecord indexes = some parts ∧
    (splitRecord = true → ∀ part ∈ parts, part ≠ [] ∧ part.length < 65536)) :
    Splittable b splitRecord start splits := by
  obtain ⟨indexes, parts, hindexes, hparts, hsized⟩ := h (largest splits)
  have hlabels := labels_of_splitIndexes hindexes
  cases splits with
  | nil =>
    cases hindexes
    cases hparts
  | cons split splits =>
    obtain ⟨last, hlast⟩ : ∃ last, (split :: splits).getLast? = some last := ⟨_, getLast?_eq_some_getLast (by simp)⟩
    have hspan := span_eq hlast
    obtain ⟨hin, hmem, hfirst⟩ := ends_of_splits hindexes hlast hparts
    have hpos : 0 < last.length := length_pos_iff.mpr (hlabels last (mem_of_getLast? hlast))
    have hpos' : 0 < split.length := length_pos_iff.mpr (hlabels split mem_cons_self)
    have hlargest : largest (split :: splits) splits.length % last.length = last.length - 1 := by
      rw [getLast?_eq_getElem?, length_cons, Nat.add_sub_cancel] at hlast
      rw [largest, hlast, getD_some]
      exact Nat.mod_eq_of_lt (by omega)
    have hlargest' : largest (split :: splits) 0 % split.length = split.length - 1 :=
      Nat.mod_eq_of_lt (by simp only [largest, getElem?_cons_zero, getD_some]; omega)
    refine ⟨nofun, hlabels, fun _ => by omega, fun hrecord => ?_⟩
    obtain ⟨part, hpart, hlength⟩ := hfirst hrecord
    have hnonempty := length_pos_iff.mpr (hsized hrecord _ hmem).1
    have hfit := (hsized hrecord part hpart).2
    obtain ⟨indexes', parts', hindexes', hparts', hsized'⟩ := h fun _ => 0
    obtain ⟨-, hmem', -⟩ := ends_of_splits hindexes' hlast hparts'
    have hfit' := (hsized' hrecord _ hmem').2
    rw [length_drop] at hnonempty hfit'
    rw [headD_cons]
    rw [Nat.zero_mod] at hfit'
    omega

end Payloads

section Writes

variable {splitPacket splitRecord : Bool}

theorem flatten_packetsOf (hsplit : splitPacket = true ∨ splitRecord = true) (frames : List Bytes) :
    (packetsOf splitPacket splitRecord frames).flatten = frames := by
  unfold packetsOf
  split_ifs with hpacket hrecord
  · rw [← flatMap_def, flatMap_singleton']
  · simp
  · exact absurd hsplit (by simp [hpacket, hrecord])

theorem splitWrite_carries_iff (hsplit : splitPacket = true ∨ splitRecord = true) (hb : 3 ≤ b.length)
    (hindex : 5 < name.index) (hname : name.serverName.length < 65536) :
    (∀ intn, ∃ writes, splitWrite publicSuffix intn splitPacket splitRecord b name = some writes ∧
      Carries b (splitRecord = true) writes) ↔
    Splittable b splitRecord (labelsOf publicSuffix name.index name.serverName).1
      (labelsOf publicSuffix name.index name.serverName).2 := by
  have hstart : 5 < (labelsOf publicSuffix name.index name.serverName).1 :=
    Nat.lt_of_lt_of_le hindex (le_labelsOf publicSuffix name.index name.serverName)
  have hspan : span (labelsOf publicSuffix name.index name.serverName).2 < 65536 :=
    Nat.lt_of_le_of_lt (span_labelsOf publicSuffix name.index name.serverName) hname
  constructor
  · intro h
    apply splittable_of_parts
    intro intn
    obtain ⟨writes, hwrites, hcarries⟩ := h intn
    obtain ⟨indexes, hindexes, hrest⟩ := bind_eq_some_iff.mp hwrites
    obtain ⟨parts, hparts, rfl⟩ := map_eq_some_iff.mp hrest
    refine ⟨indexes, parts, hindexes, hparts, fun hrecord part hpart => ?_⟩
    have hframes := (hcarries.1 hrecord).1
    rw [flatten_packetsOf hsplit, framesOf, if_pos hrecord] at hframes
    exact isRecord_record.mp (hframes (record b part) (List.mem_map_of_mem hpart))
  · intro h intn
    cases splitRecord with
    | false =>
      obtain ⟨indexes, parts, hindexes, hparts, hflat⟩ := h.plain intn
      refine ⟨packetsOf splitPacket false (framesOf b false parts), ?_, nofun, fun _ => ?_⟩
      · simp only [splitWrite, hindexes, hparts, bind_some, map_some]
      · rw [flatten_packetsOf hsplit]
        exact hflat
    | true =>
      obtain ⟨indexes, parts, hindexes, hparts, hflat, hsized⟩ := h.inRecords hstart hspan intn
      refine ⟨packetsOf splitPacket true (framesOf b true parts), ?_, fun _ => ?_, fun hnot => absurd rfl hnot⟩
      · simp only [splitWrite, hindexes, hparts, bind_some, map_some]
      · rw [flatten_packetsOf hsplit, framesOf, if_pos rfl]
        refine ⟨fun frame hframe => ?_, ?_⟩
        · obtain ⟨part, hpart, rfl⟩ := List.mem_map.mp hframe
          exact isRecord_record.mpr (hsized part hpart)
        · rw [← hflat, flatMap_map, flatten_eq_flatMap]
          simp only [record_drop hb]
          rfl

end Writes

section Search

def extensionsOf (b : Bytes) : Option (ℕ × Bytes) :=
  if b.length < recordLayerHeaderLen ∨ b[0]? ≠ some 22 then none
  else if b.length < recordLayerHeaderLen + ofBigEndian (field b 3 5) then none
  else (extensionsIndex (b.drop recordLayerHeaderLen)).bind fun currentIndex =>
    let exs := (b.drop recordLayerHeaderLen).drop currentIndex
    if exs.length < 2 ∨ (exs.drop 2).length < ofBigEndian (exs.take 2) then none
    else some (currentIndex, exs.drop 2)

def located (currentIndex : ℕ) (name : MyServerName) : MyServerName :=
  { name with
    index := name.index + currentIndex + recordLayerHeaderLen
    extensionsListLengthIndex := currentIndex + recordLayerHeaderLen }

theorem indexTLSServerName_eq (fuel : ℕ) (b : Bytes) : indexTLSServerName fuel b = match extensionsOf b with
      | none => some none
      | some (currentIndex, exs) => (loop extensionTurn fuel (exs, 2)).map (·.map (located currentIndex)) := by
  unfold indexTLSServerName extensionsOf
  split_ifs with hrecord hlength
  · rfl
  · rfl
  unfold indexTLSServerNameFromHandshake
  cases extensionsIndex (b.drop recordLayerHeaderLen) with
  | none => rfl
  | some currentIndex =>
    simp only [bind_some, indexTLSServerNameFromExtensions]
    generalize (b.drop recordLayerHeaderLen).drop currentIndex = exs
    by_cases hshort : exs.length < 2
    · simp only [hshort, true_or, if_true, map_some, map_none]
    · by_cases hlist : (exs.drop 2).length < ofBigEndian (exs.take 2)
      · simp only [hshort, hlist, or_true, if_true, if_false, map_some, map_none]
      · simp only [hshort, hlist, or_false, if_false, Option.map_map, Function.comp_def]
        rfl

variable {exs : Bytes}

theorem length_of_extensionsOf {currentIndex : ℕ} (h : extensionsOf b = some (currentIndex, exs)) :
    5 ≤ b.length := by
  unfold extensionsOf at h
  split_ifs at h with hrecord
  rw [not_or] at hrecord
  exact Nat.not_lt.mp hrecord.1

def Stuck (exs : Bytes) : Prop :=
  65536 ≤ exs.length ∧ ofBigEndian (exs.take 2) ≠ 0 ∧ ofBigEndian ((exs.drop 2).take 2) = 65532

theorem turn_of_stuck (h : Stuck exs) : extensionTurn (exs, index) = .inl (exs, index + 65536) := by
  obtain ⟨hlength, htype, hlen⟩ := h
  simp only [extensionTurn, hlen]
  rw [if_neg (by omega), if_neg (by omega), if_neg htype]
  rfl

theorem turn_inl {next : Bytes × ℕ} (h : extensionTurn (exs, index) = .inl next)
    (hstuck : ¬Stuck exs) : next.1.length < exs.length := by
  simp only [extensionTurn] at h
  split_ifs at h with hshort hwhole htype
  obtain rfl := Sum.inl.inj h
  have hlt : ofBigEndian ((exs.drop 2).take 2) < 65536 := ofBigEndian_take_lt (exs.drop 2) 2
  have hne : ofBigEndian ((exs.drop 2).take 2) ≠ 65532 := fun heq => hstuck ⟨by omega, htype, heq⟩
  rw [length_drop]
  omega

theorem turn_name (h : extensionTurn (exs, index) = .inr (some name)) :
    5 < name.index ∧ name.serverName.length < 65536 := by
  have hlt : ofBigEndian ((exs.drop 2).take 2) < 65536 := ofBigEndian_take_lt (exs.drop 2) 2
  simp only [extensionTurn] at h
  split_ifs at h
  all_goals cases h
  refine ⟨show 5 < index + 4 + 5 by omega, ?_⟩
  rw [length_drop, length_take]
  omega

end Search

def Regular (publicSuffix : Bytes → Bytes) (splitRecord : Bool) (b : Bytes) : Prop :=
  ∀ currentIndex exs, extensionsOf b = some (currentIndex, exs) →
    ∀ rest index, Reaches extensionTurn (exs, 2) (rest, index) → ¬Stuck rest ∧
      ∀ name, extensionTurn (rest, index) = .inr (some name) →
        Splittable b splitRecord (labelsOf publicSuffix (located currentIndex name).index name.serverName).1
          (labelsOf publicSuffix (located currentIndex name).index name.serverName).2

theorem write_transparent_iff (hfirst : c.firstPacketWritten = false)
    (hsplit : c.splitPacket = true ∨ c.splitRecord = true) (hb : b ≠ []) :
    Transparent publicSuffix c b ↔ Regular publicSuffix c.splitRecord b := by
  have hwrite : ∀ fuel intn found, indexTLSServerName fuel b = some found → c.write fuel publicSuffix intn b =
      some (found.elim (some [[b]]) (splitWrite publicSuffix intn c.splitPacket c.splitRecord b)) := by
    intro fuel intn found hfound
    rw [Conn.write, if_pos ⟨hfirst, hb⟩, hfound]
    cases found <;> rfl
  have hunsplit : ∀ inRecords : Prop, ¬inRecords → Carries b inRecords [[b]] :=
    fun _ hnot => ⟨fun h => absurd h hnot, fun _ => by simp⟩
  cases hexs : extensionsOf b with
  | none =>
    have hnone : ∀ fuel, indexTLSServerName fuel b = some none := by
      intro fuel
      rw [indexTLSServerName_eq, hexs]
    refine ⟨fun _ _ _ hsome => ?_, fun _ => ⟨⟨0, by rw [hnone]; rfl⟩, fun intn fuel found hfound => ?_⟩⟩
    · rw [hexs] at hsome
      cases hsome
    cases (hnone fuel).symm.trans hfound
    exact ⟨[[b]], hwrite fuel intn none hfound, hunsplit _ nofun⟩
  | some start =>
    obtain ⟨currentIndex, exs⟩ := start
    have hlength := length_of_extensionsOf hexs
    have hindex : ∀ fuel, indexTLSServerName fuel b =
        (loop extensionTurn fuel (exs, 2)).map (·.map (located currentIndex)) := by
      intro fuel
      rw [indexTLSServerName_eq, hexs]
    -- a name that is met is the one that is found, and is split
    have hname : ∀ rest index name, extensionTurn (rest, index) = .inr (some name) →
        ((∀ intn, ∃ writes, splitWrite publicSuffix intn c.splitPacket c.splitRecord b (located currentIndex name) =
          some writes ∧ Carries b (c.splitRecord = true) writes) ↔
        Splittable b c.splitRecord (labelsOf publicSuffix (located currentIndex name).index name.serverName).1
          (labelsOf publicSuffix (located currentIndex name).index name.serverName).2) := by
      intro rest index name hturn
      obtain ⟨hpos, hshort⟩ := turn_name hturn
      refine splitWrite_carries_iff hsplit (by omega) ?_ hshort
      simp only [located]
      omega
    constructor
    · intro h currentIndex' exs' hexs' rest index hreaches
      cases hexs.symm.trans hexs'
      obtain ⟨fuel, hfuel⟩ := h.terminates
      rw [hindex, Option.isSome_map] at hfuel
      obtain ⟨result, hresult⟩ := Option.isSome_iff_exists.mp hfuel
      have hreturns : Returns extensionTurn (rest, index) result := hreaches.returns_iff.mp ⟨fuel, hresult⟩
      refine ⟨fun hstuck => ?_, fun name hturn => (hname rest index name hturn).mp fun intn => ?_⟩
      · exact not_returns (P := fun state => Stuck state.1) (fun t ht => ⟨_, turn_of_stuck ht, ht⟩) hstuck hreturns
      · obtain rfl := hreturns.unique (returns_of_inr hturn)
        have hfound : indexTLSServerName fuel b = some (some (located currentIndex name)) := by
          rw [hindex, hresult]
          rfl
        obtain ⟨writes, hwrites, hcarries⟩ := h.carries intn fuel _ hfound
        rw [hwrite fuel intn _ hfound] at hwrites
        exact ⟨writes, Option.some.inj hwrites, by simpa using hcarries⟩
    · intro h
      have hregular := h currentIndex exs hexs
      obtain ⟨state, result, hreaches, hexit⟩ := exists_exit (fun state : Bytes × ℕ => state.1.length)
        fun t u ht hu => turn_inl hu (hregular t.1 t.2 ht).1
      have hreturns : Returns extensionTurn (exs, 2) result := hreaches.returns_iff.mpr (returns_of_inr hexit)
      obtain ⟨fuel, hfuel⟩ := hreturns
      refine ⟨⟨fuel, by rw [hindex, hfuel]; rfl⟩, fun intn fuel' found hfound => ?_⟩
      have hloop := hfound
      rw [hindex] at hloop
      obtain ⟨result', hresult', rfl⟩ := Option.map_eq_some_iff.mp hloop
      obtain rfl := loop_unique hfuel hresult'
      cases result with
      | none => exact ⟨[[b]], hwrite fuel' intn none hfound, hunsplit _ nofun⟩
      | some name =>
        have hsplittable := (hregular state.1 state.2 hreaches).2 name hexit
        obtain ⟨writes, hwrites, hcarries⟩ := (hname state.1 state.2 name hexit).mpr hsplittable intn
        exact ⟨writes, (hwrite fuel' intn _ hfound).trans (congrArg some hwrites), by simpa using hcarries⟩

section Hellos

def hello (extensions : Bytes) : Bytes :=
  [22, 3, 1] ++ bigEndian 2 ((extensions.length + 47) % 65536) ++
    ([1] ++ bigEndian 3 (extensions.length + 43) ++ [3, 3] ++ List.replicate 32 0 ++ [0] ++ [0, 2, 19, 1] ++ [1, 0] ++
      (bigEndian 2 (extensions.length % 65536) ++ extensions))

theorem extensionsOf_hello {extensions : Bytes} (h : extensions.length + 43 < 16777216) :
    extensionsOf (hello extensions) = some (45, extensions) := by
  have hlength : (hello extensions).length = extensions.length + 52 := by
    simp [hello]
    omega
  have hrecord : ofBigEndian (field (hello extensions) 3 5) = (extensions.length + 47) % 65536 :=
    ofBigEndian_bigEndian (w := 2) (Nat.mod_lt _ (by decide))
  have hhandshake : ofBigEndian (field ((hello extensions).drop 5) 1 4) = extensions.length + 43 :=
    ofBigEndian_bigEndian (w := 3) h
  have hlist : ofBigEndian (((hello extensions).drop 50).take 2) = extensions.length % 65536 :=
    ofBigEndian_bigEndian (w := 2) (Nat.mod_lt _ (by decide))
  have hindex : extensionsIndex ((hello extensions).drop 5) = some 45 := by
    have hsession : 6 + 32 + 1 + (((hello extensions).drop 5)[38]?.getD 0).toNat = 39 := rfl
    have hsuites : ofBigEndian ((((hello extensions).drop 5).drop 39).take 2) = 2 := rfl
    have hcompress : ((((hello extensions).drop 5).drop 39)[4]?.getD 0).toNat = 1 := rfl
    have hversion : ofBigEndian (field ((hello extensions).drop 5) 4 6) = 771 := rfl
    have htype : ((hello extensions).drop 5)[0]? = some 1 := rfl
    simp only [extensionsIndex, hsession, hsuites, hcompress, hversion, htype, hhandshake, length_drop, hlength]
    rw [if_neg (by omega), if_neg nofun, if_neg (by omega), if_neg nofun, if_neg (by omega), if_neg (by omega),
      if_neg (by omega), if_neg (by omega)]
  have htype : (hello extensions)[0]? = some 22 := rfl
  have hrest : ((hello extensions).drop 50).drop 2 = extensions := rfl
  have hdrop : ((hello extensions).drop 5).drop 45 = (hello extensions).drop 50 := rfl
  simp only [extensionsOf, recordLayerHeaderLen, hrecord, htype, hindex, bind_some, hdrop, hlist, hrest, hlength,
    length_drop]
  rw [if_neg nofun, if_neg (by omega), if_neg (by omega)]

def serverNameExtension (name : Bytes) : Bytes :=
  [0, 0] ++ bigEndian 2 (name.length + 5) ++ bigEndian 2 (name.length + 3) ++ [0] ++ bigEndian 2 name.length ++ name

/-- The public suffix of a name that no rule of the list matches. -/
def lastLabel (name : Bytes) : Bytes := (name.reverse.takeWhile (· ≠ 46)).reverse

def namedHello : Bytes := hello (serverNameExtension [97, 46, 98])

theorem write_transparent_named : Transparent lastLabel ⟨false, true, true⟩ namedHello := by
  refine (write_transparent_iff rfl (.inl rfl) (by decide)).mpr fun currentIndex exs hexs rest index hreaches => ?_
  have hstart : extensionsOf namedHello = some (45, serverNameExtension [97, 46, 98]) := extensionsOf_hello (by decide)
  cases hstart.symm.trans hexs
  have hturn : extensionTurn (serverNameExtension [97, 46, 98], 2) = .inr (some ⟨11, 3, [97, 46, 98], 0⟩) := by
    decide +kernel
  obtain ⟨rfl, rfl⟩ := Prod.mk.inj (hreaches.eq_of_inr hturn)
  refine ⟨fun hstuck => absurd hstuck.1 (by decide), fun name hname => ?_⟩
  cases Sum.inr.inj (hturn.symm.trans hname)
  refine ⟨by decide +kernel, by decide +kernel, nofun, fun _ => by decide +kernel⟩

def stuckExtension : Bytes := [0, 1, 255, 252] ++ List.replicate 65532 0

theorem stuckExtension_length : stuckExtension.length = 65536 := by
  rw [stuckExtension, length_append, length_replicate]
  rfl

theorem write_not_transparent : ¬Transparent lastLabel ⟨false, true, false⟩ (hello stuckExtension) ∧
    ¬Transparent lastLabel ⟨false, true, false⟩ (hello (serverNameExtension [])) := by
  constructor
  · intro h
    obtain ⟨fuel, hfuel⟩ := h.terminates
    rw [indexTLSServerName_eq, extensionsOf_hello (by rw [stuckExtension_length]; decide)] at hfuel
    obtain ⟨result, hresult⟩ := Option.isSome_iff_exists.mp ((Option.isSome_map ..).symm.trans hfuel)
    have hstuck : Stuck stuckExtension := ⟨Nat.le_of_eq stuckExtension_length.symm, by decide, rfl⟩
    exact not_returns (P := fun state => Stuck state.1) (fun t ht => ⟨_, turn_of_stuck ht, ht⟩) hstuck ⟨fuel, hresult⟩
  · intro h
    have hfound : indexTLSServerName 1 (hello (serverNameExtension [])) = some (some ⟨61, 0, [], 50⟩) := by
      decide +kernel
    obtain ⟨writes, hwrites, -⟩ := h.carries (fun _ => 0) 1 _ hfound
    cases hwrites

end Hellos

end Hydracore.Tlsfragment
