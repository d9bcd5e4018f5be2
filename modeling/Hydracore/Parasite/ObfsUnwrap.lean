import Hydracore.Formats.Buffers
import Hydracore.Parasite.Obfs

namespace Hydracore.Parasite

open Formats Option

/-- `openPacket nonce ciphertext additionalData` returns the plaintext, or nothing when authentication fails. -/
structure OpeningAEAD extends AEAD where
  openPacket : Bytes → Bytes → Bytes → Option Bytes
  sealPacket_length : ∀ nonce plaintext ad,
    (sealPacket nonce plaintext ad).length = plaintext.length + aeadOverhead
  openPacket_sealPacket : ∀ nonce plaintext ad, nonce.length = 12 →
    openPacket nonce (sealPacket nonce plaintext ad) ad = some plaintext

inductive UnwrapError
  | invalidPacketLength
  | invalidVersion
  | unexpectedPayloadType
  | truncatedExtensionHeader
  | truncatedHeader
  | invalidPadding
  | authenticationFailed

structure OpenCall where
  nonce : Bytes
  ciphertext : Bytes
  header : Bytes

-- a read outside the packet is the outer `none`

def headerLengthOf (wire : Bytes) (first : UInt8) : Option (Except UnwrapError ℕ) :=
  if first &&& 0x10 ≠ 0 then
    if wire.length < rtpHeaderLength + 4 then some (.error .truncatedExtensionHeader)
    else (slice wire (rtpHeaderLength + 2) (rtpHeaderLength + 4)).map fun words =>
      .ok (rtpHeaderLength + 4 + ofBigEndian words * 4)
  else some (.ok rtpHeaderLength)

def payloadEndOf (wire : Bytes) (first : UInt8) (headerLength : ℕ) : Option (Except UnwrapError ℕ) :=
  if first &&& 0x20 ≠ 0 then
    wire[wire.length - 1]?.map fun last =>
      let paddingLength := last.toNat
      if paddingLength = 0 ∨ paddingLength > wire.length - headerLength - aeadOverhead then
        .error .invalidPadding
      else .ok (wire.length - paddingLength)
  else some (.ok wire.length)

def openCall (wire : Bytes) (headerLength payloadEnd : ℕ) : Option OpenCall := do
  let sequence ← slice wire 2 4
  let timestamp ← slice wire 4 8
  let ssrc ← slice wire 8 12
  let ciphertext ← slice wire headerLength payloadEnd
  let header ← slice wire 0 headerLength
  return ⟨buildRTPNonce (UInt32.ofNat (ofBigEndian ssrc)) (UInt16.ofNat (ofBigEndian sequence))
    (UInt32.ofNat (ofBigEndian timestamp)), ciphertext, header⟩

def parsePacket (wire : Bytes) : Option (Except UnwrapError OpenCall) := do
  if wire.length < rtpHeaderLength + aeadOverhead + 1 ∨ wire.length > maximumWirePacket then
    return .error .invalidPacketLength
  let first : UInt8 ← wire[0]?
  if first >>> 6 ≠ 2 then return .error .invalidVersion
  let second : UInt8 ← wire[1]?
  let payloadType := second &&& 0x7f
  if payloadType < 96 ∨ payloadType > 127 then return .error .unexpectedPayloadType
  match ← headerLengthOf wire first with
  | .error e => return .error e
  | .ok headerLength =>
    if wire.length < headerLength + aeadOverhead + 1 then return .error .truncatedHeader
    match ← payloadEndOf wire first headerLength with
    | .error e => return .error e
    | .ok payloadEnd => return .ok (← openCall wire headerLength payloadEnd)

def OpeningAEAD.opened (aead : OpeningAEAD) (call : OpenCall) : Except UnwrapError Bytes :=
  match aead.openPacket call.nonce call.ciphertext call.header with
  | none => .error .authenticationFailed
  | some plain => .ok plain

def unwrap (aead : OpeningAEAD) (wire : Bytes) : Option (Except UnwrapError Bytes) := do
  match ← parsePacket wire with
  | .error e => return .error e
  | .ok call => return aead.opened call

theorem headerLengthOf_total (wire : Bytes) (first : UInt8) : (∃ e, headerLengthOf wire first = some (.error e)) ∨
      ∃ n, headerLengthOf wire first = some (.ok n) ∧ rtpHeaderLength ≤ n := by
  unfold headerLengthOf
  split_ifs with hx hlen
  · exact .inl ⟨_, rfl⟩
  · right
    rw [slice_of_le (by omega) (by omega)]
    exact ⟨_, rfl, by omega⟩
  · exact .inr ⟨_, rfl, le_rfl⟩

theorem payloadEndOf_total {wire : Bytes} (first : UInt8) {headerLength : ℕ}
    (hlen : headerLength + aeadOverhead + 1 ≤ wire.length) :
    (∃ e, payloadEndOf wire first headerLength = some (.error e)) ∨
      ∃ n, payloadEndOf wire first headerLength = some (.ok n) ∧
        headerLength + aeadOverhead ≤ n ∧ n ≤ wire.length := by
  unfold payloadEndOf
  split_ifs with hp
  · obtain ⟨last, hlast⟩ : ∃ last, wire[wire.length - 1]? = some last := ⟨_, List.getElem?_eq_getElem (by omega)⟩
    rw [hlast, map_some]
    by_cases hbad : last.toNat = 0 ∨ last.toNat > wire.length - headerLength - aeadOverhead
    · exact .inl ⟨.invalidPadding, by simp only [if_pos hbad]⟩
    · right
      simp only [if_neg hbad]
      exact ⟨_, rfl, by omega, by omega⟩
  · exact .inr ⟨_, rfl, by omega, le_rfl⟩

theorem openCall_eq {wire : Bytes} {headerLength payloadEnd : ℕ} (hh : rtpHeaderLength ≤ headerLength)
    (hle : headerLength ≤ payloadEnd) (hend : payloadEnd ≤ wire.length) :
    ∃ call, openCall wire headerLength payloadEnd = some call ∧ call.header = wire.take headerLength ∧
      call.ciphertext = field wire headerLength payloadEnd := by
  have h12 : 12 ≤ wire.length := le_trans (le_trans hh hle) hend
  unfold openCall
  rw [slice_of_le (by omega) (by omega), slice_of_le (by omega) (by omega), slice_of_le (by omega) (by omega),
    slice_of_le hle hend, slice_of_le (Nat.zero_le _) (hle.trans hend)]
  exact ⟨_, rfl, rfl, rfl⟩

def OpenCall.Within (call : OpenCall) (wire : Bytes) : Prop :=
  ∃ headerLength payloadEnd, rtpHeaderLength ≤ headerLength ∧ headerLength + aeadOverhead ≤ payloadEnd ∧
    payloadEnd ≤ wire.length ∧ call.header = wire.take headerLength ∧
    call.ciphertext = field wire headerLength payloadEnd

theorem parsePacket_total (wire : Bytes) :
    (∃ e, parsePacket wire = some (.error e)) ∨ ∃ call, parsePacket wire = some (.ok call) ∧ call.Within wire := by
  unfold parsePacket
  by_cases hlen : wire.length < rtpHeaderLength + aeadOverhead + 1 ∨ wire.length > maximumWirePacket
  · exact .inl ⟨_, by simp only [if_pos hlen]; rfl⟩
  have hlong : rtpHeaderLength + aeadOverhead + 1 ≤ wire.length := by omega
  have hshort : 2 ≤ wire.length := le_trans (by decide) hlong
  obtain ⟨first, hfirst⟩ : ∃ first, wire[0]? = some first := ⟨_, List.getElem?_eq_getElem (by omega)⟩
  obtain ⟨second, hsecond⟩ : ∃ second, wire[1]? = some second := ⟨_, List.getElem?_eq_getElem (by omega)⟩
  simp only [if_neg hlen, hfirst, hsecond, bind_eq_bind, bind_some, pure_def]
  by_cases hversion : first >>> 6 ≠ 2
  · exact .inl ⟨.invalidVersion, by simp only [if_pos hversion]⟩
  simp only [if_neg hversion]
  by_cases htype : second &&& 0x7f < 96 ∨ second &&& 0x7f > 127
  · exact .inl ⟨.unexpectedPayloadType, by simp only [if_pos htype]⟩
  simp only [if_neg htype]
  obtain ⟨e, he⟩ | ⟨headerLength, hheader, hmin⟩ := headerLengthOf_total wire first
  · exact .inl ⟨e, by simp only [he, bind_some]⟩
  simp only [hheader, bind_some]
  by_cases htrunc : wire.length < headerLength + aeadOverhead + 1
  · exact .inl ⟨.truncatedHeader, by simp only [if_pos htrunc]⟩
  simp only [if_neg htrunc]
  obtain ⟨e, he⟩ | ⟨payloadEnd, hend, hlo, hhi⟩ := payloadEndOf_total first (Nat.le_of_not_lt htrunc)
  · exact .inl ⟨e, by simp only [he, bind_some]⟩
  obtain ⟨call, hcall, hh, hc⟩ := openCall_eq hmin (by omega : headerLength ≤ payloadEnd) hhi
  right
  exact ⟨call, by simp only [hend, hcall, bind_some], headerLength, payloadEnd, hmin, hlo, hhi, hh, hc⟩

end Hydracore.Parasite
