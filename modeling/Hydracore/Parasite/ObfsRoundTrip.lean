import Hydracore.Parasite.ObfsNonce
import Hydracore.Parasite.ObfsUnwrap

namespace Hydracore.Parasite

open Formats Option

def newRTPCodec (aead : AEAD) (seed : Vector UInt8 10) (startedAt : ℤ) (prng : ℕ → UInt64) : RTPCodec :=
  let initialSeq := UInt16.ofNat (ofBigEndian ((seed.toList.take 6).drop 4))
  { aead := aead
    ssrc := UInt32.ofNat (ofBigEndian (seed.toList.take 4))
    initialSeq := initialSeq
    initialTS := UInt32.ofNat (ofBigEndian ((seed.toList.take 10).drop 6))
    payloadType := 96 + (initialSeq % 32).toUInt8
    startedAt := startedAt
    count := 0
    prng := prng
    drawn := 0 }

namespace RTPCodec

section

variable (c : RTPCodec)

def paddingLength : ℕ := (c.prng c.drawn).toUInt8.toNat % defaultRTPPadding + 1

def pad : Bytes :=
  (padding c.prng (c.paddingLength - 1) (c.prng c.drawn >>> 8) 7 (c.drawn + 1)).1

def totalLen (payload : Bytes) : ℕ :=
  rtpTotalHeaderLength + payload.length + aeadOverhead + c.paddingLength

def wrapInto (now : ℤ) (payload buffer : Bytes) : Option Bytes := do
  let out ← slice buffer 0 (c.totalLen payload)
  let out ← write out (rtpTotalHeaderLength + payload.length + aeadOverhead) c.pad
  let out ← write out 0 [0x80 ||| 0x20 ||| 0x10, c.payloadType]
  let out ← write out 2 (bigEndian 2 c.sequence.toNat)
  let out ← write out 4 (bigEndian 4 (c.timestamp now).toNat)
  let out ← write out 8 (bigEndian 4 c.ssrc.toNat)
  let out ← write out 12 [0xBE, 0xDE, 0x00, 0x01, 0x10, 0x00, 0x00, 0x00]
  let additionalData ← slice out 0 rtpTotalHeaderLength
  let out ← write out rtpTotalHeaderLength (c.aead.sealPacket (c.nonce now) payload additionalData)
  write out (c.totalLen payload - 1) [UInt8.ofNat c.paddingLength]

def packet (now : ℤ) (payload : Bytes) : Bytes :=
  c.header now ++ c.aead.sealPacket (c.nonce now) payload (c.header now) ++ c.pad ++ [UInt8.ofNat c.paddingLength]

end

section

open List

theorem wrap_packet (c : RTPCodec) (now : ℤ) {payload : Bytes} (h : wrappable payload = true) :
    ∃ w c', c.wrap now payload = .ok (w, c') ∧ w.out = c.packet now payload := by
  simp only [wrappable, decide_eq_true_eq] at h
  unfold wrap
  rw [if_neg (by omega), if_neg (by
    simp only [rtpTotalHeaderLength, rtpHeaderLength, rtpExtensionLength, aeadOverhead,
      defaultRTPPadding, maximumWirePacket]
    omega)]
  exact ⟨_, _, rfl, rfl⟩

theorem paddingLength_pos (c : RTPCodec) : 0 < c.paddingLength := Nat.succ_pos _

theorem paddingLength_le (c : RTPCodec) : c.paddingLength ≤ 8 := Nat.mod_lt _ (by decide : 0 < defaultRTPPadding)

theorem padding_length (prng : ℕ → UInt64) (k : ℕ) (r : UInt64) (rem drawn : ℕ) :
    (padding prng k r rem drawn).1.length = k := by
  induction k generalizing r rem drawn with
  | zero => rfl
  | succ k ih =>
    cases rem with
    | zero | succ rem => simp only [padding, length_cons, ih]

@[simp] theorem pad_length (c : RTPCodec) : c.pad.length = c.paddingLength - 1 := padding_length ..

@[simp] theorem header_length (c : RTPCodec) (now : ℤ) : (c.header now).length = 20 := by
  simp [header]

variable {c : RTPCodec}

section

variable (aead : OpeningAEAD) (hc : c.aead = aead.toAEAD) (now : ℤ) (payload : Bytes)
include hc

theorem packet_length : (c.packet now payload).length = c.totalLen payload := by
  have hpos := c.paddingLength_pos
  simp only [packet, hc, length_append, header_length, aead.sealPacket_length, pad_length,
    length_singleton, totalLen, rtpTotalHeaderLength, rtpHeaderLength, rtpExtensionLength]
  omega

theorem wrapInto_eq {buffer : Bytes} (hb : c.totalLen payload ≤ buffer.length) :
    c.wrapInto now payload buffer = some (c.packet now payload) := by
  have hpos := c.paddingLength_pos
  have hsealed : (c.aead.sealPacket (c.nonce now) payload (c.header now)).length =
      payload.length + aeadOverhead := by
    rw [hc]
    exact aead.sealPacket_length ..
  -- the buffer is cut along the fields that are written
  have hlen : (buffer.take (c.totalLen payload)).length =
      rtpTotalHeaderLength + payload.length + aeadOverhead + (c.paddingLength - 1 + 1) := by
    rw [length_take, Nat.min_eq_left hb, totalLen]
    omega
  obtain ⟨front, back, htake, hfront, hback⟩ := exists_split _ hlen
  obtain ⟨b6, b7, rfl, hb6, hb7⟩ := exists_split (c.paddingLength - 1) hback
  have hfront' : front.length = 2 + (2 + (4 + (4 + (8 + (payload.length + aeadOverhead))))) := by
    rw [hfront]
    simp only [rtpTotalHeaderLength, rtpHeaderLength, rtpExtensionLength]
    omega
  obtain ⟨b0, l0, rfl, hb0, hl0⟩ := exists_split 2 hfront'
  obtain ⟨b1, l1, rfl, hb1, hl1⟩ := exists_split 2 hl0
  obtain ⟨b2, l2, rfl, hb2, hl2⟩ := exists_split 4 hl1
  obtain ⟨b3, l3, rfl, hb3, hl3⟩ := exists_split 4 hl2
  obtain ⟨b4, b5, rfl, hb4, hb5⟩ := exists_split 8 hl3
  have hassoc : b0 ++ (b1 ++ (b2 ++ (b3 ++ (b4 ++ b5)))) ++ c.pad ++ b7 =
      [] ++ (b0 ++ (b1 ++ (b2 ++ (b3 ++ (b4 ++ (b5 ++ (c.pad ++ b7))))))) := by
    simp only [append_assoc, nil_append]
  have hlast : c.header now ++ c.aead.sealPacket (c.nonce now) payload (c.header now) ++ (c.pad ++ b7) =
      c.header now ++ c.aead.sealPacket (c.nonce now) payload (c.header now) ++ c.pad ++ (b7 ++ []) := by
    simp only [append_assoc, append_nil]
  unfold wrapInto
  simp only [bind_eq_bind]
  rw [slice_of_le (Nat.zero_le _) hb, field, drop_zero, htake, bind_some,
    write_append _ b6 b7 c.pad _ hfront.symm (by simp [hb6]), bind_some, hassoc,
    write_append [] b0 _ _ 0 rfl (by simp [hb0]), bind_some,
    write_append _ b1 _ _ 2 rfl (by simp [hb1]), bind_some,
    write_append _ b2 _ _ 4 rfl (by simp [hb2]), bind_some,
    write_append _ b3 _ _ 8 rfl (by simp [hb3]), bind_some,
    write_append _ b4 _ _ 12 rfl (by simp [hb4]), bind_some]
  change (slice ([] ++ (c.header now ++ (b5 ++ (c.pad ++ b7)))) 0 rtpTotalHeaderLength).bind _ = _
  rw [slice_append [] _ _ 0 _ rfl (by simp [rtpTotalHeaderLength, rtpHeaderLength, rtpExtensionLength]),
    bind_some]
  change (write (c.header now ++ (b5 ++ (c.pad ++ b7))) _ _).bind _ = _
  rw [write_append _ b5 _ _ _ (by simp [rtpTotalHeaderLength, rtpHeaderLength, rtpExtensionLength])
    (by rw [hb5, hsealed]), bind_some, hlast, write_append _ b7 [] _ _ ?_ (by simp [hb7]), append_nil]
  · rfl
  · simp only [length_append, header_length, hsealed, pad_length, totalLen]
    omega

end

theorem header_fields (c : RTPCodec) (now : ℤ) (rest : Bytes) :
    slice (c.header now ++ rest) 2 4 = some (bigEndian 2 c.sequence.toNat) ∧
      slice (c.header now ++ rest) 4 8 = some (bigEndian 4 (c.timestamp now).toNat) ∧
      slice (c.header now ++ rest) 8 12 = some (bigEndian 4 c.ssrc.toNat) := by
  simp only [header, append_assoc]
  refine ⟨slice_append _ _ _ _ _ rfl rfl, ?_, ?_⟩
  · rw [← append_assoc]
    exact slice_append _ _ _ _ _ rfl rfl
  · rw [← append_assoc, ← append_assoc]
    exact slice_append _ _ _ _ _ rfl rfl

theorem payloadType_accepted (seq : UInt16) :
    ¬ ((96 + (seq % 32).toUInt8) &&& 0x7f < 96 ∨ (96 + (seq % 32).toUInt8) &&& 0x7f > 127) := by
  have hall : ∀ n < 32, ¬ ((96 + UInt8.ofNat n) &&& 0x7f < 96 ∨ (96 + UInt8.ofNat n) &&& 0x7f > 127) := by
    decide
  exact hall _ (Nat.mod_lt _ (by decide))

theorem openCall_packet (aead : OpeningAEAD) (hc : c.aead = aead.toAEAD) (now : ℤ) (payload : Bytes) :
    openCall (c.packet now payload) 20 (20 + (payload.length + aeadOverhead)) =
      some ⟨c.nonce now, c.aead.sealPacket (c.nonce now) payload (c.header now), c.header now⟩ := by
  have hsealed : (c.aead.sealPacket (c.nonce now) payload (c.header now)).length =
      payload.length + aeadOverhead := by
    rw [hc]
    exact aead.sealPacket_length ..
  have hpacket : c.packet now payload = c.header now ++ (c.aead.sealPacket (c.nonce now) payload (c.header now) ++
      (c.pad ++ [UInt8.ofNat c.paddingLength])) := by
    simp only [packet, append_assoc]
  obtain ⟨hseq, hts, hssrc⟩ := c.header_fields now (c.aead.sealPacket (c.nonce now) payload (c.header now) ++
    (c.pad ++ [UInt8.ofNat c.paddingLength]))
  have hheader := slice_append [] (c.header now) (c.aead.sealPacket (c.nonce now) payload (c.header now) ++
    (c.pad ++ [UInt8.ofNat c.paddingLength])) 0 20 rfl (by simp)
  rw [List.nil_append] at hheader
  unfold openCall
  rw [hpacket, hseq, hts, hssrc, hheader, slice_append _ _ _ _ _ (by simp) (by simp [hsealed])]
  simp only [Option.bind_eq_bind, Option.bind_some, Option.pure_def, ofBigEndian_uint16, ofBigEndian_uint32,
    UInt16.ofNat_toNat, UInt32.ofNat_toNat, nonce]

theorem parsePacket_packet (aead : OpeningAEAD) (hc : c.aead = aead.toAEAD) (now : ℤ)
    {payload : Bytes} (hp : wrappable payload = true)
    (htype : ¬ (c.payloadType &&& 0x7f < 96 ∨ c.payloadType &&& 0x7f > 127)) : parsePacket (c.packet now payload) =
      some (.ok ⟨c.nonce now, c.aead.sealPacket (c.nonce now) payload (c.header now), c.header now⟩) := by
  simp only [wrappable, decide_eq_true_eq] at hp
  have hpos := c.paddingLength_pos
  have hle := c.paddingLength_le
  have hlen : (c.packet now payload).length = 20 + payload.length + 16 + c.paddingLength :=
    packet_length aead hc now payload
  have hfirst : (c.packet now payload)[0]? = some 0xB0 := rfl
  have hsecond : (c.packet now payload)[1]? = some c.payloadType := rfl
  have hheader : headerLengthOf (c.packet now payload) 0xB0 = some (.ok 20) := rfl
  have hlast : (c.packet now payload)[(c.packet now payload).length - 1]? = some (UInt8.ofNat c.paddingLength) := by
    rw [packet, length_append, length_singleton, Nat.add_sub_cancel, getElem?_append_right le_rfl, Nat.sub_self]
    rfl
  have hbyte : (UInt8.ofNat c.paddingLength).toNat = c.paddingLength := by
    rw [UInt8.toNat_ofNat']
    omega
  have hend : payloadEndOf (c.packet now payload) 0xB0 20 = some (.ok (20 + (payload.length + aeadOverhead))) := by
    have hfits : ¬ (c.paddingLength = 0 ∨
        c.paddingLength > 20 + payload.length + 16 + c.paddingLength - 20 - aeadOverhead) := by
      simp only [aeadOverhead]
      omega
    have hcut : 20 + payload.length + 16 + c.paddingLength - c.paddingLength =
        20 + (payload.length + aeadOverhead) := by
      simp only [aeadOverhead]
      omega
    rw [payloadEndOf, if_pos (by decide), hlast, map_some, hbyte, hlen]
    simp only [if_neg hfits, hcut]
  unfold parsePacket
  simp only [hfirst, hsecond, Option.bind_eq_bind, Option.bind_some, Option.pure_def, hheader, hend, if_neg htype,
    openCall_packet aead hc]
  rw [if_neg (by rw [hlen]; simp only [rtpHeaderLength, aeadOverhead, maximumWirePacket]; omega),
    if_neg (by decide), if_neg (by rw [hlen]; simp only [aeadOverhead]; omega)]

end

def later (c : RTPCodec) (count : UInt64) (drawn : ℕ) : RTPCodec := { c with count := count, drawn := drawn }

theorem wrap_roundTrip (aead : OpeningAEAD) :
    (∀ (seed : Vector UInt8 10) (startedAt now : ℤ) (prng : ℕ → UInt64) (count : UInt64) (drawn : ℕ) (payload : Bytes),
      1 ≤ payload.length → payload.length ≤ 65536 - 45 →
      ∃ w c', ((newRTPCodec aead.toAEAD seed startedAt prng).later count drawn).wrap now payload = .ok (w, c') ∧
        w.out.length ≤ payload.length + 44 ∧ (∀ buffer : Bytes, w.out.length ≤ buffer.length →
          ((newRTPCodec aead.toAEAD seed startedAt prng).later count drawn).wrapInto now payload buffer = some w.out) ∧
        unwrap aead w.out = some (.ok payload)) ∧ ∀ wire : Bytes, (∃ e, unwrap aead wire = some (.error e)) ∨
        ∃ call : OpenCall, call.Within wire ∧ unwrap aead wire = some (aead.opened call) := by
  constructor
  · intro seed startedAt now prng count drawn payload hlo hhi
    have hp : wrappable payload = true := by
      simp only [wrappable, decide_eq_true_eq]
      omega
    generalize hc : (newRTPCodec aead.toAEAD seed startedAt prng).later count drawn = c
    have haead : c.aead = aead.toAEAD := by rw [← hc]; rfl
    have htype : ¬ (c.payloadType &&& 0x7f < 96 ∨ c.payloadType &&& 0x7f > 127) := by
      rw [← hc]
      exact payloadType_accepted _
    obtain ⟨w, c', hw, hout⟩ := c.wrap_packet now hp
    have hlen := packet_length aead haead now payload
    refine ⟨w, c', hw, ?_, ?_, ?_⟩
    · have hle := c.paddingLength_le
      rw [hout, hlen]
      simp only [totalLen, rtpTotalHeaderLength, rtpHeaderLength, rtpExtensionLength, aeadOverhead]
      omega
    · intro buffer hb
      rw [hout] at hb ⊢
      exact wrapInto_eq aead haead now payload (hlen ▸ hb)
    · have hopen : aead.openPacket (c.nonce now) (c.aead.sealPacket (c.nonce now) payload (c.header now))
          (c.header now) = some payload := by
        rw [haead]
        exact aead.openPacket_sealPacket _ _ _ (by simp [nonce, buildRTPNonce])
      simp only [unwrap, hout, parsePacket_packet aead haead now hp htype, bind_eq_bind, bind_some,
        Option.pure_def, OpeningAEAD.opened, hopen]
  · intro wire
    obtain ⟨e, he⟩ | ⟨call, hcall, hwithin⟩ := parsePacket_total wire
    · exact .inl ⟨e, by simp only [unwrap, he, Option.bind_eq_bind, Option.bind_some, Option.pure_def]⟩
    · exact .inr ⟨call, hwithin,
        by simp only [unwrap, hcall, Option.bind_eq_bind, Option.bind_some, Option.pure_def]⟩

def plainAEAD : OpeningAEAD where
  sealPacket _ plaintext _ := plaintext ++ List.replicate 16 0
  openPacket _ ciphertext _ := some (ciphertext.take (ciphertext.length - 16))
  sealPacket_length _ plaintext _ := by simp [aeadOverhead]
  openPacket_sealPacket _ plaintext _ _ := by simp

theorem wrap_roundTrip_three : ∃ w c',
    ((newRTPCodec plainAEAD.toAEAD (Vector.replicate 10 7) 0 (fun _ => 5)).later 3 9).wrap 11 [1, 2, 3] = .ok (w, c') ∧
      w.out.length ≤ 47 ∧ unwrap plainAEAD w.out = some (.ok [1, 2, 3]) := by
  obtain ⟨w, c', hw, hlen, -, hun⟩ :=
    (wrap_roundTrip plainAEAD).1 (Vector.replicate 10 7) 0 11 (fun _ => 5) 3 9 [1, 2, 3] (by decide) (by decide)
  exact ⟨w, c', hw, hlen, hun⟩

end RTPCodec

end Hydracore.Parasite
