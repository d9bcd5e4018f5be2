import Hydracore.Formats.Buffers

namespace Hydracore.Parasite

open Formats

abbrev SessionID := Vector UInt8 16

def authProtocolVersion : UInt8 := 10
def authAckFrameLen : ℕ := 14
def callCount : ℕ := 4
def defaultWorkerCount : ℕ := 4
def maximumWorkerCount : ℕ := 20

def ackMagic : Bytes := [0x48, 0x41, 0x43, 0x4B]

structure AuthRequest where
  protocolVersion : UInt8
  sessionID : SessionID
  conv : UInt32
  workerID : UInt16
  workerTotal : UInt16
  workerEpoch : UInt64
  laneGeneration : UInt64
  user : Bytes
  password : Bytes
deriving DecidableEq

def supportedWorkerCount (total : UInt16) : Bool :=
  defaultWorkerCount ≤ total.toNat ∧ total.toNat ≤ maximumWorkerCount ∧ total.toNat % callCount = 0

inductive AuthReject
  | unspecified
  | credentials
  | workerCount
  | malformed
  | session
deriving DecidableEq

def AuthReject.code : AuthReject → UInt8
  | .unspecified => 0
  | .credentials => 1
  | .workerCount => 2
  | .malformed => 3
  | .session => 4

def authRejectReasonName (reason : UInt8) : String :=
  if reason = AuthReject.credentials.code then "user or password rejected"
  else if reason = AuthReject.workerCount.code then "worker count refused by the server"
  else if reason = AuthReject.malformed.code then "malformed authentication request"
  else if reason = AuthReject.session.code then "session identity mismatch"
  else "reason not given"

def encodeAuthAck (accepted : Bool) (generation : UInt64) (reason : UInt8) : Bytes :=
  ackMagic ++ [authProtocolVersion] ++
    if accepted then 1 :: bigEndian 8 generation.toNat else 0 :: reason :: List.replicate 7 0

inductive AckError
  | invalidResponse
  | rejected (reason : String)
  | invalidGeneration
deriving DecidableEq

def decodeAuthAck (frame : Bytes) : Except AckError UInt64 :=
  if frame.length ≠ authAckFrameLen ∨ frame.take 4 ≠ ackMagic ∨ frame[4]? ≠ some authProtocolVersion then
    .error .invalidResponse
  else if frame[5]? ≠ some 1 then .error (.rejected (authRejectReasonName (frame.getD 6 0)))
  else
    let generation := UInt64.ofNat (ofBigEndian ((frame.drop 6).take 8))
    if generation = 0 then .error .invalidGeneration else .ok generation

theorem decode_accepted (generation : UInt64) (reason : UInt8) :
    decodeAuthAck (encodeAuthAck true generation reason) =
      if generation = 0 then .error .invalidGeneration else .ok generation := by
  have hlen : (bigEndian 8 generation.toNat).length = 8 := bigEndian_length _ _
  have htake : (bigEndian 8 generation.toNat).take 8 = bigEndian 8 generation.toNat :=
    List.take_of_length_le (Nat.le_of_eq hlen)
  simp [decodeAuthAck, encodeAuthAck, ackMagic, authAckFrameLen, hlen, htake]

theorem decode_refused (reason : UInt8) (g : UInt64) :
    decodeAuthAck (encodeAuthAck false g reason) = .error (.rejected (authRejectReasonName reason)) := by
  simp [decodeAuthAck, encodeAuthAck, ackMagic, authAckFrameLen]

def maximumUserLength : ℕ := 64
def maximumPasswordLen : ℕ := 256
def maximumAuthFrameLen : ℕ := 48 + maximumUserLength + maximumPasswordLen

def authMagic : Bytes := [0x48, 0x43, 0x56, 0x4B]

/-- What `utf8.ValidString` expects next: `pending` bytes, the first of them between `lo` and `hi`. -/
structure Utf8State where
  pending : ℕ
  lo : UInt8
  hi : UInt8

def utf8First (b : UInt8) : Option Utf8State :=
  if b ≤ 0x7F then some ⟨0, 0x80, 0xBF⟩
  else if b < 0xC2 then none
  else if b ≤ 0xDF then some ⟨1, 0x80, 0xBF⟩
  else if b = 0xE0 then some ⟨2, 0xA0, 0xBF⟩
  else if b = 0xED then some ⟨2, 0x80, 0x9F⟩
  else if b ≤ 0xEF then some ⟨2, 0x80, 0xBF⟩
  else if b = 0xF0 then some ⟨3, 0x90, 0xBF⟩
  else if b ≤ 0xF3 then some ⟨3, 0x80, 0xBF⟩
  else if b = 0xF4 then some ⟨3, 0x80, 0x8F⟩
  else none

def utf8Step (s : Utf8State) (b : UInt8) : Option Utf8State :=
  if s.pending = 0 then utf8First b
  else if s.lo ≤ b ∧ b ≤ s.hi then some ⟨s.pending - 1, 0x80, 0xBF⟩
  else none

def validString (b : Bytes) : Bool :=
  (b.foldlM utf8Step ⟨0, 0x80, 0xBF⟩).any (fun s => s.pending = 0)

example : validString [0x68, 0xC3, 0xA9] = true ∧ validString [0xC0, 0x80] = false ∧
    validString [0xED, 0xA0, 0x80] = false ∧ validString [0xC3] = false := by decide

inductive AuthError
  | userString
  | passwordString
  | zeroSessionID
  | workerAuthMetadata
  | zeroWorkerEpoch
  | zeroLaneGeneration
  | frameLength
  | unsupportedFrame
  | identityLength
  | malformedFrame
  | authWorkerMetadata
  | frameTooLarge
  | eof
  | unexpectedEOF
deriving DecidableEq

def validWorkerMetadata (request : AuthRequest) : Bool :=
  request.conv ≠ 0 ∧ supportedWorkerCount request.workerTotal ∧ request.workerID < request.workerTotal

def validAuthString (text : Bytes) (limit : ℕ) : Bool :=
  text.length ≠ 0 ∧ text.length ≤ limit ∧ validString text

def validateAuthStrings (user password : Bytes) : Except AuthError Unit :=
  if ¬ validAuthString user maximumUserLength then .error .userString
  else if ¬ validAuthString password maximumPasswordLen then .error .passwordString
  else .ok ()

def zeroSession : SessionID := Vector.replicate 16 0

def authFrame (request : AuthRequest) : Bytes :=
  authMagic ++ (authProtocolVersion :: (request.sessionID.toList ++ (bigEndian 4 request.conv.toNat ++
    (bigEndian 2 request.workerID.toNat ++ (bigEndian 2 request.workerTotal.toNat ++
    (bigEndian 8 request.workerEpoch.toNat ++ (bigEndian 8 request.laneGeneration.toNat ++
    (UInt8.ofNat request.user.length :: (bigEndian 2 (request.password.length % 65536) ++
    (request.user ++ request.password))))))))))

def encodeAuthRequest (request : AuthRequest) : Except AuthError Bytes := do
  validateAuthStrings request.user request.password
  if request.sessionID = zeroSession then .error .zeroSessionID
  else if ¬ validWorkerMetadata request then .error .workerAuthMetadata
  else if request.workerEpoch = 0 then .error .zeroWorkerEpoch
  else if request.laneGeneration = 0 then .error .zeroLaneGeneration
  else .ok (authFrame request)

def sessionIDOf (b : Bytes) : SessionID := Vector.ofFn fun i => b.getD i 0

def decodeAuthRequest (frame : Bytes) : Except AuthError AuthRequest :=
  if frame.length < 48 ∨ frame.length > maximumAuthFrameLen then .error .frameLength
  else if field frame 0 4 ≠ authMagic ∨ frame.getD 4 0 ≠ authProtocolVersion then .error .unsupportedFrame
  else
    let userLength := (frame.getD 45 0).toNat
    let passwordLength := ofBigEndian (field frame 46 48)
    let request : AuthRequest :=
      { protocolVersion := frame.getD 4 0
        sessionID := sessionIDOf (field frame 5 21)
        conv := UInt32.ofNat (ofBigEndian (field frame 21 25))
        workerID := UInt16.ofNat (ofBigEndian (field frame 25 27))
        workerTotal := UInt16.ofNat (ofBigEndian (field frame 27 29))
        workerEpoch := UInt64.ofNat (ofBigEndian (field frame 29 37))
        laneGeneration := UInt64.ofNat (ofBigEndian (field frame 37 45))
        user := field frame 48 (48 + userLength)
        password := frame.drop (48 + userLength) }
    if request.sessionID = zeroSession then .error .zeroSessionID
    else if request.workerEpoch = 0 then .error .zeroWorkerEpoch
    else if request.laneGeneration = 0 then .error .zeroLaneGeneration
    else if userLength = 0 ∨ userLength > maximumUserLength ∨ passwordLength = 0 ∨
        passwordLength > maximumPasswordLen then .error .identityLength
    else if frame.length ≠ 48 + userLength + passwordLength then .error .malformedFrame
    else do
      validateAuthStrings request.user request.password
      if ¬ validWorkerMetadata request then .error .authWorkerMetadata
      else .ok request

def readFull (stream : Bytes) (n : ℕ) : Except AuthError (Bytes × Bytes) :=
  if n ≤ stream.length then .ok (stream.take n, stream.drop n)
  else if stream.length = 0 then .error .eof
  else .error .unexpectedEOF

def readAuthRequest (stream : Bytes) : Except AuthError (AuthRequest × Bytes) := do
  let (header, stream) ← readFull stream 48
  let userLength := (header.getD 45 0).toNat
  let passwordLength := ofBigEndian (field header 46 48)
  let total := 48 + userLength + passwordLength
  if total > maximumAuthFrameLen then .error .frameTooLarge
  else
    let (identity, stream) ← if total > 48 then readFull stream (total - 48) else .ok ([], stream)
    let request ← decodeAuthRequest (header ++ identity)
    .ok (request, stream)

end Hydracore.Parasite
