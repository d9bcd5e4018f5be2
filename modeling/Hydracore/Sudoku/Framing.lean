import Hydracore.Formats.BigEndian
import Mathlib.Data.List.Forall2

namespace Hydracore.Sudoku

open Formats List

def readFull (n : ℕ) (r : Bytes) : Option (Bytes × Bytes) := if r.length < n then none else some (r.take n, r.drop n)

def kipMagic : Bytes := [0x6b, 0x69, 0x70]

def kipMaxPayload : ℕ := 64 * 1024

def maxUoTPayload : ℕ := 64 * 1024

structure KIPMessage where
  type : UInt8
  payload : Bytes

def writeKIPMessage (m : KIPMessage) : Option Bytes :=
  if m.payload.length > kipMaxPayload then none
  else some (kipMagic ++ m.type :: bigEndian 2 (m.payload.length % 65536) ++ m.payload)

def readKIPMessage (r : Bytes) : Option (KIPMessage × Bytes) := do
  let (hdr, r) ← readFull 6 r
  let n := ofBigEndian (hdr.drop 4)
  if hdr.take 3 ≠ kipMagic ∨ n > kipMaxPayload then none
  else (readFull n r).map fun (payload, r) => (⟨hdr.getD 3 0, payload⟩, r)

/-- `EncodeAddress` and `DecodeAddress` of `address.go` for addresses as the second one writes them: a type byte, for a
domain a length byte, at most 255 bytes of host, and the port. -/
structure AddressCodec where
  encodeAddress : String → Option Bytes
  decodeAddress : Bytes → Option String
  inverts : ∀ addr b, encodeAddress addr = some b → decodeAddress b = some addr
  bounded : ∀ addr b, encodeAddress addr = some b → b.length ≤ 1 + 1 + 255 + 2

namespace AddressCodec

variable (c : AddressCodec)

def writeDatagram (d : String × Bytes) : Option Bytes := do
  let addrBuf ← c.encodeAddress d.1
  if addrBuf.length = 0 ∨ addrBuf.length > maxUoTPayload ∨ d.2.length > maxUoTPayload then none
  else some (bigEndian 2 (addrBuf.length % 65536) ++ bigEndian 2 (d.2.length % 65536) ++ addrBuf ++ d.2)

def readDatagramHeaderAndAddress (r : Bytes) : Option ((String × ℕ) × Bytes) := do
  let (header, r) ← readFull 4 r
  let addrLen := ofBigEndian (header.take 2)
  let payloadLen := ofBigEndian (header.drop 2)
  if addrLen = 0 ∨ addrLen > maxUoTPayload ∨ payloadLen > maxUoTPayload then none
  else
    let (addrBuf, r) ← readFull addrLen r
    (c.decodeAddress addrBuf).map fun addr => ((addr, payloadLen), r)

def readDatagram (r : Bytes) : Option ((String × Bytes) × Bytes) := do
  let ((addr, payloadLen), r) ← c.readDatagramHeaderAndAddress r
  (readFull payloadLen r).map fun (payload, r) => ((addr, payload), r)

end AddressCodec

variable {μ : Type}

def readMany (read : Bytes → Option (μ × Bytes)) : ℕ → Bytes → Option (List μ)
  | 0, _ => some []
  | n + 1, r => do
    let (m, r) ← read r
    (readMany read n r).map (m :: ·)

theorem readFull_append {n : ℕ} {b : Bytes} (h : b.length = n) (rest : Bytes) :
    readFull n (b ++ rest) = some (b, rest) := by
  rw [readFull, if_neg (by simp [h]), take_left' h, drop_left' h]

/-- Messages whose payload is read by a length of two bytes. -/
theorem readMany_iff {write : μ → Option Bytes} {read : Bytes → Option (μ × Bytes)} {payload : μ → Bytes}
    (put : μ → Bytes → μ) (hput : ∀ m b, payload (put m b) = b ∧ put m (payload m) = m)
    (hread : ∀ m b rest, write m = some b → (payload m).length ≤ 65536 ∧ read (b ++ rest) =
      (readFull ((payload m).length % 65536) (payload m ++ rest)).map fun r => (put m r.1, r.2))
    {ms : List μ} {bs : List Bytes} (h : Forall₂ (write · = some ·) ms bs) :
    readMany read ms.length bs.flatten = some ms ↔ ∀ m ∈ ms, (payload m).length ≠ 65536 := by
  induction h with
  | nil => simp [readMany]
  | @cons m b ms bs hm _ ih =>
    obtain ⟨hle, hread⟩ := hread m b bs.flatten hm
    rw [length_cons, flatten_cons, readMany, forall_mem_cons, ← ih, hread]
    by_cases hfull : (payload m).length = 65536
    · -- the length is written as zero, and the payload is left on the stream
      have hempty : put m [] ≠ m := by
        intro heq
        have hpayload := (hput m []).1
        rw [heq, ← length_eq_zero_iff, hfull] at hpayload
        cases hpayload
      simp [hfull, readFull, hempty]
    · rw [Nat.mod_eq_of_lt (by omega), readFull_append rfl]
      simp [hfull, (hput m []).2]

theorem ofBigEndian_length (n : ℕ) : ofBigEndian (bigEndian 2 (n % 65536)) = n % 65536 ∧ ¬65536 < n % 65536 := by
  have hlt : n % 65536 < 65536 := Nat.mod_lt _ (by decide)
  exact ⟨ofBigEndian_bigEndian hlt, Nat.lt_asymm hlt⟩

theorem readKIPMessage_append {m : KIPMessage} {b : Bytes} (rest : Bytes) (h : writeKIPMessage m = some b) :
    m.payload.length ≤ 65536 ∧ readKIPMessage (b ++ rest) =
      (readFull (m.payload.length % 65536) (m.payload ++ rest)).map fun r => (⟨m.type, r.1⟩, r.2) := by
  unfold writeKIPMessage at h
  split_ifs at h with hle
  cases h
  refine ⟨Nat.not_lt.mp hle, ?_⟩
  rw [append_assoc, readKIPMessage, readFull_append (by simp [kipMagic])]
  simp [kipMagic, kipMaxPayload, ofBigEndian_length]

theorem readDatagram_append {c : AddressCodec} {d : String × Bytes} {b : Bytes} (rest : Bytes)
    (h : c.writeDatagram d = some b) : d.2.length ≤ 65536 ∧ c.readDatagram (b ++ rest) =
      (readFull (d.2.length % 65536) (d.2 ++ rest)).map fun r => ((d.1, r.1), r.2) := by
  obtain ⟨addrBuf, haddr, h⟩ := Option.bind_eq_some_iff.mp h
  have hshort := c.bounded _ _ haddr
  split_ifs at h with hbad
  cases h
  rw [not_or, not_or, Nat.not_lt, Nat.not_lt] at hbad
  refine ⟨hbad.2.2, ?_⟩
  have hlength : addrBuf.length % 65536 = addrBuf.length := Nat.mod_eq_of_lt (by omega)
  have haddrLen := ofBigEndian_length addrBuf.length
  rw [hlength] at haddrLen ⊢
  rw [append_assoc, append_assoc, AddressCodec.readDatagram, AddressCodec.readDatagramHeaderAndAddress,
    readFull_append (by simp)]
  simp [ofBigEndian_length, haddrLen, maxUoTPayload, hbad, readFull_append, c.inverts _ _ haddr]

theorem readKIPMessages_iff {ms : List KIPMessage} {bs : List Bytes} (h : Forall₂ (writeKIPMessage · = some ·) ms bs) :
    readMany readKIPMessage ms.length bs.flatten = some ms ↔ ∀ m ∈ ms, m.payload.length ≠ 65536 :=
  readMany_iff (fun m b => ⟨m.type, b⟩) (fun _ _ => ⟨rfl, rfl⟩) (fun _ _ => readKIPMessage_append) h

theorem framing_exact_iff (c : AddressCodec) :
    (∀ ms bs, Forall₂ (writeKIPMessage · = some ·) ms bs → (readMany readKIPMessage ms.length bs.flatten = some ms ↔
      ∀ m ∈ ms, m.payload.length ≠ 65536)) ∧
    ∀ ds bs, Forall₂ (c.writeDatagram · = some ·) ds bs → (readMany c.readDatagram ds.length bs.flatten = some ds ↔
      ∀ d ∈ ds, d.2.length ≠ 65536) := by
  refine ⟨fun ms bs h => readKIPMessages_iff h, fun ds bs h => ?_⟩
  exact readMany_iff (fun d b => (d.1, b)) (fun _ _ => ⟨rfl, rfl⟩) (fun _ _ => readDatagram_append) h

theorem full_payload_lost : ∃ m b, m.payload.length = 65536 ∧ writeKIPMessage m = some b ∧
    readMany readKIPMessage 1 b ≠ some [m] := by
  have hfull : (replicate 65536 0 : Bytes).length = 65536 := length_replicate
  generalize (replicate 65536 0 : Bytes) = payload at hfull
  have hwrite : ∃ b, writeKIPMessage ⟨0x14, payload⟩ = some b := ⟨_, if_neg (by simp [hfull, kipMaxPayload])⟩
  obtain ⟨b, hb⟩ := hwrite
  refine ⟨_, b, hfull, hb, fun hread => ?_⟩
  have hall := (readKIPMessages_iff (.cons hb .nil)).mp (by simpa using hread)
  exact hall _ mem_cons_self hfull

def oneAddress : AddressCodec where
  encodeAddress addr := if addr = "a:1" then some [3, 1, 97, 0, 1] else none
  decodeAddress b := if b = [3, 1, 97, 0, 1] then some "a:1" else none
  inverts addr b h := by grind
  bounded addr b h := by
    split_ifs at h
    cases h
    decide

theorem framing_exact_two : readMany readKIPMessage 2 [kipMagic ++ [0x10, 0, 1, 7], kipMagic ++ [0x14, 0, 0]].flatten =
      some [⟨0x10, [7]⟩, ⟨0x14, []⟩] ∧
    readMany oneAddress.readDatagram 2 [[0, 5, 0, 2, 3, 1, 97, 0, 1, 8, 9], [0, 5, 0, 1, 3, 1, 97, 0, 1, 6]].flatten =
      some [("a:1", [8, 9]), ("a:1", [6])] :=
  ⟨((framing_exact_iff oneAddress).1 _ _ (.cons (by decide +kernel) (.cons (by decide +kernel) .nil))).mpr (by simp),
    ((framing_exact_iff oneAddress).2 _ _ (.cons (by decide +kernel) (.cons (by decide +kernel) .nil))).mpr (by simp)⟩

end Hydracore.Sudoku
