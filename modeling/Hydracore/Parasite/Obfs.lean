import Hydracore.Formats.BigEndian

namespace Hydracore.Parasite

open Formats

def rtpHeaderLength : ℕ := 12
def rtpExtensionLength : ℕ := 8
def rtpTotalHeaderLength : ℕ := rtpHeaderLength + rtpExtensionLength
def defaultRTPPadding : ℕ := 8
def maxCodecWireBuffer : ℕ := 1536
def maximumWirePacket : ℕ := 64 * 1024
def aeadOverhead : ℕ := 16

/-- `sealPacket nonce plaintext additionalData`, the ChaCha20-Poly1305 instance of the codec's key. -/
structure AEAD where
  sealPacket : Bytes → Bytes → Bytes → Bytes

structure RTPCodec where
  aead : AEAD
  ssrc : UInt32
  initialSeq : UInt16
  initialTS : UInt32
  payloadType : UInt8
  startedAt : ℤ
  count : UInt64
  prng : ℕ → UInt64
  drawn : ℕ

inductive WrapError
  | emptyPayload
  | payloadTooLarge

def second : ℤ := 1000000000

def since (startedAt now : ℤ) : ℤ := max (-2 ^ 63) (min (now - startedAt) (2 ^ 63 - 1))

def toUint64 (x : ℤ) : UInt64 := UInt64.ofInt x

def rtpTicks (elapsed : ℤ) : UInt64 :=
  let sec := toUint64 (elapsed.tdiv second)
  let nsec := toUint64 (elapsed.tmod second)
  sec * 90000 + nsec * 90000 / toUint64 second

def buildRTPNonce (ssrc : UInt32) (sequence : UInt16) (timestamp : UInt32) : Bytes :=
  bigEndian 4 ssrc.toNat ++ bigEndian 2 sequence.toNat ++ [0, 0] ++ bigEndian 4 timestamp.toNat

namespace RTPCodec

def timestamp (c : RTPCodec) (now : ℤ) : UInt32 :=
  c.initialTS + (rtpTicks (since c.startedAt now)).toUInt32

def sequence (c : RTPCodec) : UInt16 := c.initialSeq + c.count.toUInt16

def nonce (c : RTPCodec) (now : ℤ) : Bytes := buildRTPNonce c.ssrc c.sequence (c.timestamp now)

def header (c : RTPCodec) (now : ℤ) : Bytes :=
  [0x80 ||| 0x20 ||| 0x10, c.payloadType] ++ bigEndian 2 c.sequence.toNat ++
    bigEndian 4 (c.timestamp now).toNat ++ bigEndian 4 c.ssrc.toNat ++
    [0xBE, 0xDE, 0x00, 0x01, 0x10, 0x00, 0x00, 0x00]

def padding (prng : ℕ → UInt64) : ℕ → UInt64 → ℕ → ℕ → Bytes × ℕ
  | 0, _, _, drawn => ([], drawn)
  | k + 1, _, 0, drawn =>
    let r := prng drawn
    let (rest, drawn') := padding prng k (r >>> 8) 7 (drawn + 1)
    (r.toUInt8 :: rest, drawn')
  | k + 1, r, rem + 1, drawn =>
    let (rest, drawn') := padding prng k (r >>> 8) rem drawn
    (r.toUInt8 :: rest, drawn')

structure Wrapped where
  out : Bytes
  pooled : Bool

def wrap (c : RTPCodec) (now : ℤ) (payload : Bytes) : Except WrapError (Wrapped × RTPCodec) :=
  if payload.length = 0 then .error .emptyPayload
  else if payload.length + rtpTotalHeaderLength + aeadOverhead + defaultRTPPadding + 1 > maximumWirePacket then
    .error .payloadTooLarge
  else
    let r := c.prng c.drawn
    let paddingLength := r.toUInt8.toNat % defaultRTPPadding + 1
    let (pad, drawn) := padding c.prng (paddingLength - 1) (r >>> 8) 7 (c.drawn + 1)
    let totalLen := rtpTotalHeaderLength + payload.length + aeadOverhead + paddingLength
    .ok (⟨c.header now ++ c.aead.sealPacket (c.nonce now) payload (c.header now) ++ pad ++
        [UInt8.ofNat paddingLength], totalLen ≤ maxCodecWireBuffer⟩,
      { c with count := c.count + 1, drawn := drawn })

end RTPCodec

end Hydracore.Parasite
