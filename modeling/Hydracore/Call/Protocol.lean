import Hydracore.Formats.BigEndian
import Mathlib.Data.List.Basic

namespace Hydracore.Call

open Formats List

def msgConnect : UInt8 := 0x01
def msgConnectOK : UInt8 := 0x02
def msgConnectErr : UInt8 := 0x03
def msgData : UInt8 := 0x04
def msgClose : UInt8 := 0x05
def msgUDP : UInt8 := 0x06
def msgUDPReply : UInt8 := 0x07
def msgConfig : UInt8 := 0x08
def msgConfigAck : UInt8 := 0x09
def msgFlowCredit : UInt8 := 0x0c

structure Frame where
  connID : UInt32
  msgType : UInt8
  payload : Bytes
deriving DecidableEq

def Frame.encode (f : Frame) : Bytes :=
  bigEndian 4 ((5 + f.payload.length) % 4294967296) ++ bigEndian 4 f.connID.toNat ++ f.msgType :: f.payload

def Frame.Fits (f : Frame) : Prop := 5 + f.payload.length < 4294967296

def decodeFramesFrom : ℕ → Bytes → List Frame
  | 0, _ => []
  | fuel + 1, data =>
    if data.length < 4 then []
    else
      let frameLen := ofBigEndian (data.take 4)
      if frameLen < 5 ∨ data.length < 4 + frameLen then []
      else
        { connID := UInt32.ofNat (ofBigEndian ((data.drop 4).take 4))
          msgType := data.getD 8 0
          payload := (data.take (4 + frameLen)).drop 9 } ::
          decodeFramesFrom fuel (data.drop (4 + frameLen))

def decodeFrames (data : Bytes) : List Frame := decodeFramesFrom data.length data

def udpPayload (destStr b : Bytes) : Bytes := UInt8.ofNat destStr.length :: (destStr ++ b)

def parseUDP (payload : Bytes) : Option (Bytes × Bytes) :=
  if payload.length < 2 then none
  else
    let addrLen := (payload.headD 0).toNat
    if addrLen = 0 ∨ payload.length < 1 + addrLen then none
    else if 0 ∈ payload.tail.take addrLen then none
    else some (payload.tail.take addrLen, payload.tail.drop addrLen)

namespace Frame

variable {f : Frame}

theorem encode_length (f : Frame) : f.encode.length = 9 + f.payload.length := by
  simp only [encode, length_append, bigEndian_length, length_cons]
  omega

theorem Fits.frameLen (h : f.Fits) (rest : Bytes) :
    ofBigEndian ((f.encode ++ rest).take 4) = 5 + f.payload.length := by
  rw [encode, append_assoc, append_assoc, take_left' (bigEndian_length _ _), Nat.mod_eq_of_lt h]
  exact ofBigEndian_bigEndian h

section

variable (f : Frame) (rest : Bytes)

theorem encode_connID : UInt32.ofNat (ofBigEndian (((f.encode ++ rest).drop 4).take 4)) = f.connID := by
  rw [encode, append_assoc, append_assoc, drop_left' (bigEndian_length _ _),
    take_left' (bigEndian_length _ _), ofBigEndian_uint32, UInt32.ofNat_toNat]

theorem encode_msgType : (f.encode ++ rest).getD 8 0 = f.msgType := by
  rfl

theorem encode_payload : ((f.encode ++ rest).take (4 + (5 + f.payload.length))).drop 9 = f.payload := by
  rw [take_left' (by rw [encode_length]; omega)]
  rfl

end

theorem Fits.decodeFramesFrom_append (h : f.Fits) (fuel : ℕ) (rest : Bytes) :
    decodeFramesFrom (fuel + 1) (f.encode ++ rest) = f :: decodeFramesFrom fuel rest := by
  have hlen : (f.encode ++ rest).length = 9 + f.payload.length + rest.length := by
    rw [length_append, encode_length]
  simp only [decodeFramesFrom, h.frameLen, encode_connID, encode_msgType, encode_payload]
  rw [if_neg (by omega), if_neg (by omega), drop_left' (by rw [encode_length]; omega)]

end Frame

theorem decodeFramesFrom_flatMap {l : List Frame} (hfits : ∀ f ∈ l, f.Fits) {fuel : ℕ} (hfuel : l.length ≤ fuel) :
    decodeFramesFrom fuel (l.flatMap Frame.encode) = l := by
  induction l generalizing fuel with
  | nil => cases fuel <;> simp [decodeFramesFrom]
  | cons f l ih =>
    obtain ⟨fuel, rfl⟩ : ∃ n, fuel = n + 1 := Nat.exists_eq_add_one.mpr (Nat.lt_of_lt_of_le (by simp) hfuel)
    rw [flatMap_cons, (hfits f mem_cons_self).decodeFramesFrom_append]
    rw [ih (fun g hg => hfits g (mem_cons_of_mem f hg)) (Nat.le_of_succ_le_succ hfuel)]

theorem length_le_flatMap_encode (l : List Frame) : l.length ≤ (l.flatMap Frame.encode).length := by
  induction l with
  | nil => exact Nat.le_refl 0
  | cons f l ih =>
    rw [flatMap_cons, length_append, Frame.encode_length, length_cons]
    omega

theorem decodeFrames_flatMap {l : List Frame} (hfits : ∀ f ∈ l, f.Fits) :
    decodeFrames (l.flatMap Frame.encode) = l :=
  decodeFramesFrom_flatMap hfits (length_le_flatMap_encode l)

theorem parseUDP_udpPayload {destStr b : Bytes} (hshort : destStr.length ≤ 255) {r : Bytes × Bytes}
    (h : parseUDP (udpPayload destStr b) = some r) : r = (destStr, b) := by
  have hlen : (UInt8.ofNat destStr.length).toNat = destStr.length :=
    UInt8.toNat_ofNat_of_lt (Nat.lt_succ_of_le hshort)
  simp only [parseUDP, udpPayload, headD_cons, tail_cons, hlen, take_left, drop_left] at h
  split_ifs at h
  exact (Option.some.inj h).symm

end Hydracore.Call
