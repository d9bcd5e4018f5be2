import Hydracore.Formats.BigEndian
import Hydracore.Systems.Dicts
import Hydracore.Systems.Tasks

namespace Hydracore.Bond

open Formats List Systems

def version : UInt8 := 0

abbrev UUID := { b : Bytes // b.length = 16 }

structure Request (α : Type) where
  uuid : UUID
  index : UInt8
  count : UInt8
  downloadRatio : UInt8
  uploadRatio : UInt8
  destination : α
  deriving DecidableEq

inductive RequestError where
  | eof
  | unknownVersion (version : UInt8)
  | address
  deriving DecidableEq

variable {α : Type}

def readRequest (serializer : AddressSerializer α) : Bytes → Except RequestError (Request α × Bytes)
  | [] => .error .eof
  | first :: stream =>
    if first ≠ version then .error (.unknownVersion first)
    else if h : stream.length < 16 then .error .eof
    else
      match stream.drop 16 with
      | index :: count :: downloadRatio :: uploadRatio :: rest =>
        match serializer.readAddrPort rest with
        | some (destination, rest) =>
          .ok (⟨⟨stream.take 16, by simpa using h⟩, index, count, downloadRatio, uploadRatio, destination⟩, rest)
        | none => .error .address
      | _ => .error .eof

def writeRequest (serializer : AddressSerializer α) (request : Request α) : Option Bytes :=
  (serializer.writeAddrPort request.destination).map fun address =>
    version :: request.uuid.1 ++ [request.index, request.count, request.downloadRatio, request.uploadRatio] ++ address

theorem readRequest_append {serializer : AddressSerializer α} {request : Request α} {b : Bytes} (rest : Bytes)
    (h : writeRequest serializer request = some b) : readRequest serializer (b ++ rest) = .ok (request, rest) := by
  obtain ⟨address, haddress, rfl⟩ := Option.map_eq_some_iff.mp h
  obtain ⟨⟨uuid, huuid⟩, index, count, downloadRatio, uploadRatio, destination⟩ := request
  have hlong : ¬ (uuid ++ [index, count, downloadRatio, uploadRatio] ++ address ++ rest).length < 16 := by
    simp [huuid]
  have hdrop : (uuid ++ [index, count, downloadRatio, uploadRatio] ++ address ++ rest).drop 16 =
      index :: count :: downloadRatio :: uploadRatio :: (address ++ rest) := by
    rw [append_assoc, append_assoc, drop_left' huuid]
    simp
  have htake : (uuid ++ [index, count, downloadRatio, uploadRatio] ++ address ++ rest).take 16 = uuid := by
    rw [append_assoc, append_assoc, take_left' huuid]
  simp only [cons_append, readRequest, ne_eq, not_true_eq_false, if_false, dif_neg hlong, hdrop, htake,
    serializer.readAddrPort_append rest haddress]

def ipv4Serializer : AddressSerializer IPv4AddrPort where
  writeAddrPort x := some [x.high, x.low, 1, x.a, x.b, x.c, x.d]
  readAddrPort
    | high :: low :: 1 :: a :: b :: c :: d :: rest => some (⟨a, b, c, d, high, low⟩, rest)
    | _ => none
  readAddrPort_append := by
    rintro x b rest ⟨⟩
    rfl

def loopback : IPv4AddrPort := ⟨127, 0, 0, 1, 0, 80⟩

def zeroUUID : UUID := ⟨List.replicate 16 0, rfl⟩

structure RatioConn where
  conn : ℕ
  downloadRatio : UInt8
  uploadRatio : UInt8

structure BondedConn where
  conns : List (Option ℕ)
  downloadRatios : List UInt8
  uploadRatios : List UInt8

abbrev RatioConns := Dict UInt8 RatioConn

/-- The slices `connHandler` fills from a complete set, with the sums of the ratios. -/
structure Slices extends BondedConn where
  totalDownloadRatio : UInt8
  totalUploadRatio : UInt8

def Slices.make (size : ℕ) : Slices := ⟨⟨List.replicate size none, List.replicate size 0, List.replicate size 0⟩, 0, 0⟩

/-- `none` is the panic of an index out of range. -/
def Slices.put (s : Slices) (entry : Sigma fun _ : UInt8 => RatioConn) : Option Slices :=
  if entry.1.toNat < s.conns.length then
    some ⟨⟨s.conns.set entry.1.toNat (some entry.2.conn), s.downloadRatios.set entry.1.toNat entry.2.downloadRatio,
      s.uploadRatios.set entry.1.toNat entry.2.uploadRatio⟩, s.totalDownloadRatio + entry.2.downloadRatio,
      s.totalUploadRatio + entry.2.uploadRatio⟩
  else none

def RatioConns.slices (ratioConns : RatioConns) : Option Slices :=
  ratioConns.entries.foldlM Slices.put (.make ratioConns.size)

/-- What becomes of the set a connection is stored in; but for `waiting` the set is left empty. -/
inductive Collected where
  | waiting (ratioConns : RatioConns)
  | invalid (conns : List ℕ)
  | bonded (conn : BondedConn)
  | panicked

def RatioConns.assemble (ratioConns : RatioConns) : Collected :=
  match ratioConns.slices with
  | none => .panicked
  | some slices =>
    if slices.totalDownloadRatio ≠ 100 ∨ slices.totalUploadRatio ≠ 100 then
      if slices.conns.all Option.isSome then .invalid slices.conns.reduceOption else .panicked
    else .bonded slices.toBondedConn

variable {α : Type}

section

variable (ratioConns : RatioConns)

def RatioConns.store (conn : ℕ) (request : Request α) : RatioConns :=
  ratioConns.insert request.index ⟨conn, request.downloadRatio, request.uploadRatio⟩

def collect (conn : ℕ) (request : Request α) : Collected :=
  if (ratioConns.store conn request).size = request.count.toNat then (ratioConns.store conn request).assemble
  else .waiting (ratioConns.store conn request)

def fits (request : Request α) : Bool :=
  request.index ∉ ratioConns && (ratioConns.size + 1 ≠ request.count.toNat ||
    (request.index.toNat < request.count.toNat && ratioConns.keys.all (·.toNat < request.count.toNat)))

def RatioConns.members (conn : ℕ) : ℕ := ratioConns.count fun _ r => r.conn = conn

end

def Collected.members (conn : ℕ) : Collected → ℕ
  | waiting ratioConns => ratioConns.members conn
  | invalid conns => conns.count conn
  | bonded bondedConn => bondedConn.conns.count (some conn)
  | panicked => 0

variable {entry : Sigma fun _ : UInt8 => RatioConn}

section

variable {l : List (Sigma fun _ : UInt8 => RatioConn)} {s s' : Slices}

theorem Slices.put_eq (h : s.put entry = some s') : s'.conns = s.conns.set entry.1.toNat (some entry.2.conn) := by
  obtain ⟨-, ⟨⟩⟩ := Option.ite_none_right_eq_some.mp h
  rfl

theorem exists_slices (h : ∀ entry ∈ l, entry.1.toNat < s.conns.length) : ∃ s', l.foldlM Slices.put s = some s' := by
  induction l generalizing s with
  | nil => exact ⟨s, rfl⟩
  | cons entry l ih =>
    rw [forall_mem_cons] at h
    have hput : s.put entry = some _ := if_pos h.1
    rw [foldlM_cons, hput]
    apply ih
    intro other hother
    simpa using h.2 other hother

theorem slices_conns (h : l.foldlM Slices.put s = some s') (hkeys : l.NodupKeys)
    (hnil : ∀ entry ∈ l, s.conns[entry.1.toNat]? = some none) :
    s'.conns.count none + l.length = s.conns.count none ∧
      ∀ conn, s'.conns.count (some conn) = s.conns.count (some conn) + l.countP fun entry => entry.2.conn = conn := by
  induction l generalizing s with
  | nil =>
    cases h
    simp
  | cons entry l ih =>
    rw [forall_mem_cons] at hnil
    rw [nodupKeys_cons] at hkeys
    obtain ⟨t, ht, h⟩ := Option.bind_eq_some_iff.mp h
    have hconns := Slices.put_eq ht
    have hcount (x : Option ℕ) := countP_set_add (p := (· == x)) (b := some entry.2.conn) hnil.1
    simp only [← hconns, ← count_eq_countP'] at hcount
    obtain ⟨hnone, hsome⟩ := ih h hkeys.2 fun other hother => by
      have hne : entry.1 ≠ other.1 := fun heq => hkeys.1 (heq ▸ mem_keys_of_mem hother)
      rw [hconns, getElem?_set_ne fun heq => hne (UInt8.toNat_inj.mp heq)]
      exact hnil.2 other hother
    constructor
    · have := hcount none
      simp at this
      rw [length_cons]
      omega
    · intro conn
      have := hcount (some conn)
      simp at this
      rw [hsome, countP_cons, this]
      simp
      omega

end

variable {ratioConns : RatioConns}

theorem RatioConns.exists_slices (h : ∀ index ∈ ratioConns.keys, index.toNat < ratioConns.size) :
    ∃ slices, ratioConns.slices = some slices ∧ none ∉ slices.conns ∧
      ∀ conn, slices.conns.count (some conn) = ratioConns.members conn := by
  have hlt : ∀ entry ∈ ratioConns.entries, entry.1.toNat < (Slices.make ratioConns.size).conns.length := by
    intro entry hentry
    simpa [Slices.make] using h _ (mem_map_of_mem hentry)
  obtain ⟨slices, hslices⟩ := Bond.exists_slices hlt
  obtain ⟨hnone, hsome⟩ := slices_conns hslices ratioConns.nodupKeys fun entry hentry => by
    simpa [Slices.make, getElem?_replicate] using h _ (mem_map_of_mem hentry)
  refine ⟨slices, hslices, ?_, fun conn => ?_⟩
  · rw [← count_eq_zero]
    simpa [Slices.make, Dict.size] using hnone
  · rw [hsome]
    simp [Slices.make, RatioConns.members, Dict.count, count_replicate]

theorem RatioConns.assemble_members (h : ∀ index ∈ ratioConns.keys, index.toNat < ratioConns.size) :
    ratioConns.assemble ≠ .panicked ∧ ∀ conn, ratioConns.assemble.members conn = ratioConns.members conn := by
  obtain ⟨slices, hslices, hnone, hcount⟩ := RatioConns.exists_slices h
  have hall : slices.conns.all Option.isSome = true := by
    rw [all_eq_true]
    intro conn hconn
    cases conn with
    | none => exact absurd hconn hnone
    | some conn => rfl
  simp only [RatioConns.assemble, hslices, hall, if_true]
  split_ifs
  · refine ⟨nofun, fun conn => ?_⟩
    rw [← hcount]
    change countP _ (slices.conns.filterMap id) = _
    rw [countP_filterMap]
    apply countP_congr
    intro other _
    cases other <;> simp
  · exact ⟨nofun, hcount⟩

theorem collect_members {request : Request α} (conn : ℕ) (h : fits ratioConns request = true) :
    collect ratioConns conn request ≠ .panicked ∧ ∀ other,
      (collect ratioConns conn request).members other = ratioConns.members other + if conn = other then 1 else 0 := by
  simp only [fits, Bool.and_eq_true, Bool.or_eq_true, decide_eq_true_eq, all_eq_true] at h
  obtain ⟨hnew, hcomplete⟩ := h
  have hlookup : ratioConns.lookup request.index = none := AList.lookup_eq_none.mpr hnew
  have hmembers (other : ℕ) : (ratioConns.store conn request).members other =
      ratioConns.members other + if conn = other then 1 else 0 := by
    rw [RatioConns.store, RatioConns.members, Dict.count_insert hlookup]
    simp [RatioConns.members]
  have hsize : (ratioConns.store conn request).size = ratioConns.size + 1 := Dict.size_insert hlookup _
  unfold collect
  split_ifs with hcount
  · rw [hsize] at hcount
    obtain ⟨hindex, hkeys⟩ := hcomplete.resolve_left (not_not.mpr hcount)
    have hbelow : ∀ index ∈ (ratioConns.store conn request).keys,
        index.toNat < (ratioConns.store conn request).size := by
      intro index hmem
      rw [hsize, hcount]
      rw [RatioConns.store, AList.keys_insert, mem_cons] at hmem
      obtain rfl | hmem := hmem
      · exact hindex
      · exact hkeys index (mem_of_mem_erase hmem)
    obtain ⟨hne, hassemble⟩ := RatioConns.assemble_members hbelow
    exact ⟨hne, fun other => (hassemble other).trans (hmembers other)⟩
  · exact ⟨nofun, hmembers⟩

end Hydracore.Bond
