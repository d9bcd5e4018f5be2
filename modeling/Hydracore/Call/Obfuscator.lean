import Hydracore.Formats.BigEndian

namespace Hydracore.Call

open Formats List

def vp8Keepalive : Bytes :=
  [0x30, 0x01, 0x00, 0x9d, 0x01, 0x2a, 0x10, 0x00, 0x10, 0x00, 0x00, 0x47, 0x08, 0x85, 0x85, 0x88, 0x99, 0x84, 0x88,
    0xfc]

def vp8Interframe : Bytes :=
  [0xb1, 0x01, 0x00, 0x08, 0x11, 0x18, 0x00, 0x18, 0x00, 0x18, 0x58, 0x2f, 0xf4, 0x00, 0x08, 0x00, 0x00]

def epochFieldLen : ℕ := 4

structure DecodeResult where
  hasFrame : Bool
  keepalive : Bool
  selfEcho : Bool
  peerRestart : Bool
  payload : Bytes
  peerEpoch : UInt32

def DecodeResult.empty : DecodeResult := ⟨false, false, false, false, [], 0⟩

/-- `openData` is the `Open` of the AEAD, `peer` the peer's epoch once there is one. -/
structure TunnelObfuscator where
  openData : Bytes → Bytes → Option Bytes
  localEpoch : UInt32
  peer : Option UInt32
  other : peer ≠ some localEpoch

namespace TunnelObfuscator

def keepaliveHeader (localEpoch : UInt32) : Bytes := vp8Keepalive ++ bigEndian epochFieldLen localEpoch.toNat

variable (o : TunnelObfuscator)

def decryptPayload (data : Bytes) : Option Bytes :=
  if data.length < 24 + 16 then none else o.openData (data.take 24) (data.drop 24)

def notePeer (epoch : UInt32) (h : epoch ≠ o.localEpoch) : TunnelObfuscator :=
  { o with peer := some epoch, other := fun heq => h (Option.some.inj heq) }

def epochAt (frame : Bytes) (epochOff : ℕ) : UInt32 :=
  UInt32.ofNat (ofBigEndian ((frame.drop epochOff).take epochFieldLen))

def decodeFrom (frame : Bytes) (epochOff : ℕ) (isKeepaliveFrame : Bool) : TunnelObfuscator × DecodeResult :=
  let hdrLen := epochOff + epochFieldLen
  let peerEpoch := epochAt frame epochOff
  if frame.length < hdrLen then (o, .empty)
  else if h : peerEpoch = o.localEpoch then (o, ⟨true, false, true, false, [], peerEpoch⟩)
  else
    let peerRestart := o.peer.any (· ≠ peerEpoch)
    -- the epoch is noted before the body is looked at
    (o.notePeer peerEpoch h,
      if isKeepaliveFrame || frame.length = hdrLen then ⟨true, true, false, peerRestart, [], peerEpoch⟩
      else match o.decryptPayload (frame.drop hdrLen) with
        | none => .empty
        | some plaintext => ⟨true, false, false, peerRestart, plaintext, peerEpoch⟩)

def decode (frame : Bytes) : TunnelObfuscator × DecodeResult :=
  if frame.head? = vp8Keepalive.head? then o.decodeFrom frame vp8Keepalive.length true
  else if frame.head? = vp8Interframe.head? then o.decodeFrom frame vp8Interframe.length false
  else (o, .empty)

def decodeAll : TunnelObfuscator → List Bytes → List DecodeResult
  | _, [] => []
  | o, frame :: frames => (o.decode frame).2 :: decodeAll (o.decode frame).1 frames

/-- A data frame whose body does not authenticate. -/
def Forged (frame : Bytes) : Prop :=
  frame.head? = vp8Interframe.head? ∧ vp8Interframe.length + epochFieldLen < frame.length ∧
    o.decryptPayload (frame.drop (vp8Interframe.length + epochFieldLen)) = none

abbrev epochOf (frame : Bytes) : UInt32 := epochAt frame vp8Interframe.length

variable {o} {frame : Bytes} {epoch : UInt32}

theorem Forged.decode (h : o.Forged frame) : (o.decode frame).2.peerRestart = false ∧
    (o.decode frame).1 = if h : epochOf frame = o.localEpoch then o else o.notePeer (epochOf frame) h := by
  obtain ⟨hfirst, hlength, hbody⟩ := h
  rw [TunnelObfuscator.decode, hfirst, if_neg (by decide), if_pos rfl, decodeFrom]
  simp only [hbody, if_neg (Nat.not_lt.mpr (Nat.le_of_lt hlength)), Bool.false_or, decide_eq_true_eq,
    if_neg (Nat.ne_of_gt hlength)]
  split_ifs
  · exact ⟨rfl, rfl⟩
  · exact ⟨rfl, rfl⟩

theorem decode_keepalive (h : epoch ≠ o.localEpoch) :
    (o.decode (keepaliveHeader epoch)).2.peerRestart = o.peer.any (· ≠ epoch) := by
  have hepoch : epochAt (keepaliveHeader epoch) vp8Keepalive.length = epoch := by
    rw [epochAt, keepaliveHeader, drop_left, epochFieldLen, take_of_length_le (by simp), ofBigEndian_uint32,
      UInt32.ofNat_toNat]
  have hlength : ¬(keepaliveHeader epoch).length < vp8Keepalive.length + epochFieldLen := by
    simp [keepaliveHeader]
  have hfirst : (keepaliveHeader epoch).head? = vp8Keepalive.head? := rfl
  simp only [TunnelObfuscator.decode, hfirst, if_true, decodeFrom, hlength, if_false, hepoch, dif_neg h, Bool.true_or]

theorem exists_other (o : TunnelObfuscator) (h : o.peer ≠ some epoch) :
    ∃ other, other ≠ o.localEpoch ∧ other ≠ epoch ∧ o.peer.any (· ≠ other) = false := by
  cases hpeer : o.peer with
  | some peer =>
    have hlocal := o.other
    rw [hpeer] at h hlocal
    exact ⟨peer, fun heq => hlocal (congrArg some heq), fun heq => h (congrArg some heq), by simp⟩
  | none =>
    by_contra hnone
    simp only [Option.any_none, and_true, not_exists, not_and, not_not] at hnone
    have h0 := hnone 0
    have h1 := hnone 1
    have h2 := hnone 2
    grind

theorem forged_unnoticed_iff (hforged : o.Forged frame) : (o.decode frame).2.peerRestart = false ∧
    ((∀ frames, (o.decode frame).1.decodeAll frames = o.decodeAll frames) ↔
      epochOf frame = o.localEpoch ∨ o.peer = some (epochOf frame)) := by
  obtain ⟨hresult, hstate⟩ := hforged.decode
  rw [hstate]
  refine ⟨hresult, fun hsame => ?_, ?_⟩
  · by_contra hunknown
    rw [not_or] at hunknown
    obtain ⟨other, hlocal, hother, hpeer⟩ := o.exists_other hunknown.2
    -- the next keepalive of the peer tells the two apart
    have hkeepalive := hsame [keepaliveHeader other]
    rw [dif_neg hunknown.1] at hkeepalive
    have hrestart := congrArg DecodeResult.peerRestart (cons.inj hkeepalive).1
    rw [decode_keepalive (by exact hlocal), decode_keepalive hlocal, hpeer] at hrestart
    exact hother.symm (by simpa [notePeer] using hrestart)
  · rintro (hlocal | hpeer) frames
    · rw [dif_pos hlocal]
    · split_ifs
      · rfl
      · simp only [notePeer, ← hpeer]

section Runs

def fresh : TunnelObfuscator := ⟨fun _ _ => none, 1, none, nofun⟩

def forged (epoch : UInt32) : Bytes := vp8Interframe ++ bigEndian epochFieldLen epoch.toNat ++ replicate 40 0

theorem forged_restart : fresh.Forged (forged 3) ∧
    (fresh.decodeAll [keepaliveHeader 2, forged 3, keepaliveHeader 2]).map (·.peerRestart) = [false, false, true] ∧
    (fresh.decodeAll [keepaliveHeader 2, keepaliveHeader 2]).map (·.peerRestart) = [false, false] := by
  unfold Forged
  decide +kernel

def noted : TunnelObfuscator := (fresh.decode (keepaliveHeader 2)).1

theorem forged_unnoticed : noted.peer = some 2 ∧ noted.Forged (forged 2) ∧
    ∀ frames, (noted.decode (forged 2)).1.decodeAll frames = noted.decodeAll frames := by
  have hpeer : noted.peer = some 2 := by decide +kernel
  have hforged : noted.Forged (forged 2) := by
    unfold Forged
    decide +kernel
  exact ⟨hpeer, hforged, (forged_unnoticed_iff hforged).2.mpr (.inr hpeer)⟩

end Runs

end TunnelObfuscator

end Hydracore.Call
