import Hydracore.Formats.Buffers
import Hydracore.Systems.Loops

namespace Hydracore.Tlsfragment

open Formats Systems

def recordLayerHeaderLen : ℕ := 5

structure MyServerName where
  index : ℕ
  length : ℕ
  serverName : Bytes
  extensionsListLengthIndex : ℕ
  deriving DecidableEq

def extensionTurn (state : Bytes × ℕ) : Bytes × ℕ ⊕ Option MyServerName :=
  let exs := state.1
  let exType := ofBigEndian (exs.take 2)
  let exLen := ofBigEndian ((exs.drop 2).take 2)
  let sex := (exs.drop 4).take exLen
  if exs.length < 4 then .inr none
  else if exs.length < 4 + exLen then .inr none
  else if exType = 0 then
    if sex.length < 5 then .inr none
    else if sex[2]? ≠ some 0 then .inr none
    else .inr (some ⟨state.2 + 4 + 5, ofBigEndian ((sex.drop 3).take 2), sex.drop 5, 0⟩)
  -- the bound of the slice is a sum of 16 bits
  else .inl (exs.drop ((4 + exLen) % 65536), state.2 + (4 + exLen))

def indexTLSServerNameFromExtensions (fuel : ℕ) (exs : Bytes) : Option (Option MyServerName) :=
  if exs.length < 2 then some none
  else if (exs.drop 2).length < ofBigEndian (exs.take 2) then some none
  else loop extensionTurn fuel (exs.drop 2, 2)

def extensionsIndex (handshake : Bytes) : Option ℕ :=
  let tlsVersion := ofBigEndian (field handshake 4 6)
  let sessionEnd := 6 + 32 + 1 + (handshake[38]?.getD 0).toNat
  let cipherSuites := handshake.drop sessionEnd
  let csLen := ofBigEndian (cipherSuites.take 2)
  let currentIndex := sessionEnd + (2 + csLen + 1 + (cipherSuites[2 + csLen]?.getD 0).toNat)
  if handshake.length < 6 + 32 + 1 then none
  else if handshake[0]? ≠ some 1 then none
  else if (handshake.drop 4).length ≠ ofBigEndian (field handshake 1 4) then none
  else if tlsVersion / 4 * 4 ≠ 768 ∧ tlsVersion ≠ 772 then none
  else if handshake.length < sessionEnd then none
  else if cipherSuites.length < 2 then none
  else if cipherSuites.length < 2 + csLen + 1 then none
  else if handshake.length < currentIndex then none
  else some currentIndex

def indexTLSServerNameFromHandshake (fuel : ℕ) (handshake : Bytes) : Option (Option MyServerName) :=
  match extensionsIndex handshake with
  | none => some none
  | some currentIndex =>
    (indexTLSServerNameFromExtensions fuel (handshake.drop currentIndex)).map fun found => found.map fun name =>
      { name with index := name.index + currentIndex, extensionsListLengthIndex := currentIndex }

def indexTLSServerName (fuel : ℕ) (payload : Bytes) : Option (Option MyServerName) :=
  if payload.length < recordLayerHeaderLen ∨ payload[0]? ≠ some 22 then some none
  else if payload.length < recordLayerHeaderLen + ofBigEndian (field payload 3 5) then some none
  else
    (indexTLSServerNameFromHandshake fuel (payload.drop recordLayerHeaderLen)).map fun found => found.map fun name =>
      { name with
        index := name.index + recordLayerHeaderLen
        extensionsListLengthIndex := name.extensionsListLengthIndex + recordLayerHeaderLen }

def splitDots : Bytes → List Bytes
  | [] => [[]]
  | c :: s =>
    if c = 46 then [] :: splitDots s
    else match splitDots s with
      | [] => [[c]]
      | label :: labels => (c :: label) :: labels

def labelsOf (publicSuffix : Bytes → Bytes) (index : ℕ) (name : Bytes) : ℕ × List Bytes :=
  let splits := splitDots name
  let splits := if publicSuffix name ≠ [] then splits.take (splits.length - name.count 46) else splits
  if 1 < splits.length ∧ splits.head? = some [46, 46, 46] then (index + 4, splits.tail) else (index, splits)

/-- A random index in each label, from the `i`-th on; there is none in an empty one, and `Intn` panics. -/
def splitIndexes (intn : ℕ → ℕ) : ℕ → ℕ → List Bytes → Option (List ℕ)
  | _, _, [] => some []
  | i, currentIndex, split :: splits =>
    if split = [] then none
    else (splitIndexes intn (i + 1) (currentIndex + split.length + 1) splits).map
      ((currentIndex + intn i % split.length) :: ·)

def cut (b : Bytes) : ℕ → List ℕ → Option (List Bytes)
  | lo, [] => (slice b lo b.length).map ([·])
  | lo, hi :: indexes => (slice b lo hi).bind fun part => (cut b hi indexes).map (part :: ·)

def payloads (b : Bytes) (splitRecord : Bool) (indexes : List ℕ) : Option (List Bytes) :=
  match indexes with
  | [] => none
  | first :: indexes =>
    (slice b 0 first).bind fun part =>
      (if splitRecord then slice part recordLayerHeaderLen part.length else some part).bind fun payload =>
        (cut b first indexes).map (payload :: ·)

def record (b payload : Bytes) : Bytes := b.take 3 ++ bigEndian 2 (payload.length % 65536) ++ payload

def framesOf (b : Bytes) (splitRecord : Bool) (payloads : List Bytes) : List Bytes :=
  if splitRecord then payloads.map (record b) else payloads

def packetsOf (splitPacket splitRecord : Bool) (frames : List Bytes) : List (List Bytes) :=
  if splitPacket then frames.map ([·]) else if splitRecord then [frames] else []

def splitWrite (publicSuffix : Bytes → Bytes) (intn : ℕ → ℕ) (splitPacket splitRecord : Bool) (b : Bytes)
    (name : MyServerName) : Option (List (List Bytes)) :=
  let labels := labelsOf publicSuffix name.index name.serverName
  (splitIndexes intn 0 labels.1 labels.2).bind fun indexes =>
    (payloads b splitRecord indexes).map fun payloads =>
      packetsOf splitPacket splitRecord (framesOf b splitRecord payloads)

structure Conn where
  firstPacketWritten : Bool
  splitPacket : Bool
  splitRecord : Bool

/-- `Write` where all writes succeed: none if it has not returned, and none inside if it panics. -/
def Conn.write (c : Conn) (fuel : ℕ) (publicSuffix : Bytes → Bytes) (intn : ℕ → ℕ) (b : Bytes) :
    Option (Option (List (List Bytes))) :=
  if c.firstPacketWritten = false ∧ b ≠ [] then
    (indexTLSServerName fuel b).map fun found =>
      match found with
      | none => some [[b]]
      | some name => splitWrite publicSuffix intn c.splitPacket c.splitRecord b name
  else some (some [[b]])

end Hydracore.Tlsfragment
