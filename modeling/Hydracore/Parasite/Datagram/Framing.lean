import Hydracore.Parasite.Datagram.Frame

namespace Hydracore.Parasite.Datagram

open Formats

variable {Addr : Type} {S : AddrSerializer Addr}

namespace Sender

variable {d : Bytes}

theorem header_eq (a : Sender S) (hd : S.writeAddrPort a.destination = some d) :
    a.header = some (putUvarint a.id ++ d) := by
  unfold header
  split
  · rename_i base hb
    obtain ⟨d', hd', rfl⟩ := a.cached base hb
    rw [Option.some.inj (hd.symm.trans hd')]
  · rw [hd, Option.map_some]

def frameHead (a : Sender S) (d : Bytes) : Bytes := putUvarint a.id ++ d ++ putUvarint (a.nextPacket + 1)

def pieces (a : Sender S) (p : Bytes) : List Bytes :=
  (List.range (chunkCount a.fragmentBudget p.length)).map (chunk a.fragmentBudget p)

variable {p : Bytes}

section

variable (a : Sender S)

section

variable (hd : S.writeAddrPort a.destination = some d)
include hd

theorem framePrefix_eq :
    ∃ b, a.framePrefix = (b, some (a.frameHead d)) ∧ b.framePrefixReserve = a.framePrefixReserve ∧
      b.fragmentBudget = a.fragmentBudget := by
  have hh := a.header_eq hd
  unfold framePrefix
  split
  · rename_i hnone
    rw [hh] at hnone
    cases hnone
  · rename_i base hsome
    cases hh.symm.trans hsome
    exact ⟨_, rfl, rfl, rfl⟩

theorem frameHead_length (hid : a.id.toNat < 2 ^ 28) (hpacket : (a.nextPacket + 1).toNat < 2 ^ 35) :
    (a.frameHead d).length ≤ a.framePrefixReserve := by
  have hlen := S.length_write _ _ hd
  have h₁ : (putUvarint a.id).length ≤ 4 := uvarintGroups_length hid
  have h₂ : (putUvarint (a.nextPacket + 1)).length ≤ 5 := uvarintGroups_length hpacket
  simp only [frameHead, List.length_append, framePrefixReserve, datagramAssocIDReserve, datagramPacketIDReserve]
  omega

theorem fragmentBudget_ge : 1013 ≤ a.fragmentBudget := by
  have := S.bounded _ _ hd
  simp only [fragmentBudget, framePrefixReserve, maxDatagramFramePayload, quicSendDatagramLimit, quicPacketSize,
    datagramAssocIDReserve, datagramPacketIDReserve, datagramFragmentHeader]
  omega

theorem fragment_count_le
    (hp : p.length ≤ maxDatagramPayload) : chunkCount a.fragmentBudget p.length ≤ maxDatagramFragments := by
  have hb := a.fragmentBudget_ge hd
  refine chunkCount_le (by omega) (by decide) (hp.trans ?_)
  simp only [maxDatagramPayload, maxDatagramFragments]
  omega

theorem write_eq (hconn : a.connected = true) (hopen : a.closed = false) (hid : a.id.toNat < 2 ^ 28)
    (hpacket : (a.nextPacket + 1).toNat < 2 ^ 35) (hp : p.length ≤ maxDatagramPayload) :
    (a.write p).2 = .ok ((List.range (chunkCount a.fragmentBudget p.length)).map
      (packet (a.frameHead d) a.fragmentBudget (chunkCount a.fragmentBudget p.length) p)) := by
  obtain ⟨b, hb, hreserve, hbudget⟩ := a.framePrefix_eq hd
  have hhead := a.frameHead_length hd hid hpacket
  have hroom := a.fragmentBudget_ge hd
  have hcount := a.fragment_count_le hd hp
  unfold write
  rw [if_neg (by simp [hconn]), if_neg (by simp [hopen]), if_neg (by omega), hb]
  simp only [hreserve, hbudget]
  rw [if_neg (by omega), if_neg (by omega), if_neg (by omega)]

theorem packet_length_le
    (hid : a.id.toNat < 2 ^ 28) (hpacket : (a.nextPacket + 1).toNat < 2 ^ 35) (total : ℕ) (p : Bytes) (index : ℕ) :
    (packet (a.frameHead d) a.fragmentBudget total p index).length ≤ maxDatagramFramePayload := by
  have hhead := a.frameHead_length hd hid hpacket
  have hroom := a.fragmentBudget_ge hd
  have hchunk := chunk_length_le a.fragmentBudget p index
  simp only [fragmentBudget, datagramFragmentHeader] at hroom hchunk ⊢
  simp only [packet, List.length_append, List.length_cons, List.length_nil]
  omega

theorem parse_packet {budget total : ℕ} {index : ℕ} (hi : index < total) (ht : total ≤ maxDatagramFragments) :
    ∃ f, parseDatagramFrame S (packet (a.frameHead d) budget total p index) = some f ∧
      f.associationID = a.id ∧ f.destination = a.destination ∧ f.packetID = a.nextPacket + 1 ∧
      f.total.toNat = total ∧ f.index.toNat = index ∧ f.fragment = chunk budget p index := by
  have hbyte {k : ℕ} (hk : k ≤ 255) : (UInt8.ofNat k).toNat = k := by
    rw [UInt8.toNat_ofNat', Nat.mod_eq_of_lt (by omega)]
  have htotal := hbyte ht
  have hindex := hbyte (k := index) (by simp only [maxDatagramFragments] at ht; omega)
  have hok : ¬ (UInt8.ofNat total = 0 ∨ UInt8.ofNat total ≤ UInt8.ofNat index) := by
    rw [← UInt8.toNat_inj, UInt8.le_iff_toNat_le, htotal, hindex]
    simp only [UInt8.toNat_zero]
    omega
  have hsplit : packet (a.frameHead d) budget total p index = putUvarint a.id ++ (d ++
      (putUvarint (a.nextPacket + 1) ++ UInt8.ofNat total :: UInt8.ofNat index :: chunk budget p index)) := by
    simp [packet, frameHead]
  refine ⟨⟨a.id, a.destination, a.nextPacket + 1, UInt8.ofNat total, UInt8.ofNat index, chunk budget p index,
    UInt8.not_le.mp (not_or.mp hok).2⟩, ?_, rfl, rfl, rfl, htotal, hindex, rfl⟩
  simp only [parseDatagramFrame, hsplit, readUvarint_putUvarint, Option.bind_some, S.readAddrPort_append _ hd, dif_neg hok]

end

end

theorem write_ok {a : Sender S} {packets : List Bytes} (h : (a.write p).2 = .ok packets) :
    ∃ d, S.writeAddrPort a.destination = some d ∧ 0 < a.fragmentBudget ∧ p.length ≤ maxDatagramPayload ∧
      chunkCount a.fragmentBudget p.length ≤ maxDatagramFragments ∧
      packets = (List.range (chunkCount a.fragmentBudget p.length)).map
        (packet (a.frameHead d) a.fragmentBudget (chunkCount a.fragmentBudget p.length) p) := by
  cases hd : S.writeAddrPort a.destination with
  | none =>
    have hnone : a.header = none := by
      cases hh : a.header with
      | none => rfl
      | some base =>
        obtain ⟨d, hd', -⟩ := header_some hh
        rw [hd] at hd'
        cases hd'
    have hpre : a.framePrefix = (a, none) := by
      unfold framePrefix
      split
      · rfl
      · rename_i hsome
        rw [hnone] at hsome
        cases hsome
    unfold write at h
    rw [hpre] at h
    split_ifs at h
  | some d =>
    obtain ⟨b, hb, hreserve, hbudget⟩ := a.framePrefix_eq hd
    unfold write at h
    rw [hb] at h
    simp only [hreserve, hbudget] at h
    split_ifs at h with h₁ h₂ h₃ h₄ h₅ h₆
    refine ⟨d, rfl, by omega, by omega, by omega, ?_⟩
    exact (Except.ok.inj h).symm

end Sender

end Hydracore.Parasite.Datagram
