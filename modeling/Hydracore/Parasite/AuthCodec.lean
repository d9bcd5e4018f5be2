import Hydracore.Parasite.Auth
import Hydracore.Systems.Outcomes

namespace Hydracore.Parasite

open Formats Systems List

structure AuthLayout where
  magic : Bytes
  version : UInt8
  session : Bytes
  conv : Bytes
  workerID : Bytes
  workerTotal : Bytes
  epoch : Bytes
  generation : Bytes
  userLength : UInt8
  passwordLength : Bytes
  identity : Bytes
  magic_length : magic.length = 4
  session_length : session.length = 16
  conv_length : conv.length = 4
  workerID_length : workerID.length = 2
  workerTotal_length : workerTotal.length = 2
  epoch_length : epoch.length = 8
  generation_length : generation.length = 8
  passwordLength_length : passwordLength.length = 2

variable {frame : Bytes}

namespace AuthLayout

attribute [simp] magic_length session_length conv_length workerID_length workerTotal_length epoch_length
  generation_length passwordLength_length

def bytes (l : AuthLayout) : Bytes :=
  l.magic ++ (l.version :: (l.session ++ (l.conv ++ (l.workerID ++ (l.workerTotal ++ (l.epoch ++
    (l.generation ++ (l.userLength :: (l.passwordLength ++ l.identity)))))))))

def header (l : AuthLayout) : Bytes :=
  l.magic ++ (l.version :: (l.session ++ (l.conv ++ (l.workerID ++ (l.workerTotal ++ (l.epoch ++
    (l.generation ++ (l.userLength :: l.passwordLength))))))))

theorem bytes_eq (l : AuthLayout) : l.bytes = l.header ++ l.identity := by
  simp [bytes, header]

@[simp] theorem header_length (l : AuthLayout) : l.header.length = 48 := by
  simp [header]

theorem bytes_length (l : AuthLayout) : l.bytes.length = 48 + l.identity.length := by
  rw [bytes_eq, length_append, header_length]

theorem exists_bytes (h : 48 ≤ frame.length) : ∃ l : AuthLayout, l.bytes = frame := by
  have hlen : frame.length = 4 + (1 + (16 + (4 + (2 + (2 + (8 + (8 + (1 + (2 + (frame.length - 48)))))))))) := by
    omega
  obtain ⟨b0, l0, rfl, hb0, hl0⟩ := exists_split 4 hlen
  obtain ⟨b1, l1, rfl, hb1, hl1⟩ := exists_split 1 hl0
  obtain ⟨b2, l2, rfl, hb2, hl2⟩ := exists_split 16 hl1
  obtain ⟨b3, l3, rfl, hb3, hl3⟩ := exists_split 4 hl2
  obtain ⟨b4, l4, rfl, hb4, hl4⟩ := exists_split 2 hl3
  obtain ⟨b5, l5, rfl, hb5, hl5⟩ := exists_split 2 hl4
  obtain ⟨b6, l6, rfl, hb6, hl6⟩ := exists_split 8 hl5
  obtain ⟨b7, l7, rfl, hb7, hl7⟩ := exists_split 8 hl6
  obtain ⟨b8, l8, rfl, hb8, hl8⟩ := exists_split 1 hl7
  obtain ⟨b9, l9, rfl, hb9, -⟩ := exists_split 2 hl8
  obtain ⟨version, rfl⟩ := length_eq_one_iff.mp hb1
  obtain ⟨userLength, rfl⟩ := length_eq_one_iff.mp hb8
  exact ⟨⟨b0, version, b2, b3, b4, b5, b6, b7, userLength, b9, l9, hb0, hb2, hb3, hb4, hb5, hb6, hb7, hb9⟩, rfl⟩

section

variable (l : AuthLayout)

theorem fields : field l.bytes 0 4 = l.magic ∧ l.bytes.getD 4 0 = l.version ∧ field l.bytes 5 21 = l.session ∧
    field l.bytes 21 25 = l.conv ∧ field l.bytes 25 27 = l.workerID ∧ field l.bytes 27 29 = l.workerTotal ∧
    field l.bytes 29 37 = l.epoch ∧ field l.bytes 37 45 = l.generation ∧ l.bytes.getD 45 0 = l.userLength ∧
    field l.bytes 46 48 = l.passwordLength := by
  simp [bytes, field_drop, field_cons, field_zero, getD_eq_getElem?_getD, getElem?_append]

theorem field_user (n : ℕ) : field l.bytes 48 (48 + n) = l.identity.take n := by
  rw [bytes_eq, field_drop _ _ (Nat.le_of_eq l.header_length) (by omega), header_length, Nat.sub_self,
    Nat.add_sub_cancel_left, field, drop_zero]

theorem drop_password (n : ℕ) : l.bytes.drop (48 + n) = l.identity.drop n := by
  rw [bytes_eq, ← header_length l, drop_length_add_append]

end

def request (l : AuthLayout) : AuthRequest where
  protocolVersion := l.version
  sessionID := sessionIDOf l.session
  conv := UInt32.ofNat (ofBigEndian l.conv)
  workerID := UInt16.ofNat (ofBigEndian l.workerID)
  workerTotal := UInt16.ofNat (ofBigEndian l.workerTotal)
  workerEpoch := UInt64.ofNat (ofBigEndian l.epoch)
  laneGeneration := UInt64.ofNat (ofBigEndian l.generation)
  user := l.identity.take l.userLength.toNat
  password := l.identity.drop l.userLength.toNat

end AuthLayout

structure AuthRequest.Acceptable (r : AuthRequest) : Prop where
  user : validAuthString r.user maximumUserLength = true
  password : validAuthString r.password maximumPasswordLen = true
  session : r.sessionID ≠ zeroSession
  metadata : validWorkerMetadata r = true
  epoch : r.workerEpoch ≠ 0
  generation : r.laneGeneration ≠ 0

structure AuthRequest.Framed (r : AuthRequest) : Prop where
  user : validAuthString r.user maximumUserLength = true
  password : validAuthString r.password maximumPasswordLen = true
  session : r.sessionID ≠ zeroSession
  epoch : r.workerEpoch ≠ 0
  generation : r.laneGeneration ≠ 0

variable {r : AuthRequest} {l : AuthLayout}

theorem AuthRequest.Acceptable.framed (h : r.Acceptable) : r.Framed :=
  ⟨h.user, h.password, h.session, h.epoch, h.generation⟩

theorem validateAuthStrings_ok {user password : Bytes} (hu : validAuthString user maximumUserLength = true)
    (hp : validAuthString password maximumPasswordLen = true) : validateAuthStrings user password = .ok () := by
  simp [validateAuthStrings, hu, hp]

theorem valid_of_validateAuthStrings {user password : Bytes} {x : Unit}
    (h : validateAuthStrings user password = .ok x) :
    validAuthString user maximumUserLength = true ∧ validAuthString password maximumPasswordLen = true := by
  unfold validateAuthStrings at h
  split_ifs at h with hu hp
  exact ⟨hu, hp⟩

theorem encode_of_acceptable (h : r.Acceptable) : encodeAuthRequest r = .ok (authFrame r) := by
  unfold encodeAuthRequest
  rw [validateAuthStrings_ok h.user h.password]
  simp [bind, Except.bind, h.session, h.metadata, h.epoch, h.generation]

theorem acceptable_of_encode (h : encodeAuthRequest r = .ok frame) : r.Acceptable ∧ authFrame r = frame := by
  obtain ⟨_, hv, hr⟩ := exists_ok_bind h
  obtain ⟨hu, hp⟩ := valid_of_validateAuthStrings hv
  split_ifs at hr with hs hm he hg
  exact ⟨⟨hu, hp, hs, hm, he, hg⟩, Except.ok.inj hr⟩

structure AuthLayout.Consistent (l : AuthLayout) : Prop where
  magic : l.magic = authMagic
  version : l.version = authProtocolVersion
  acceptable : l.request.Acceptable
  lengths : l.identity.length = l.userLength.toNat + ofBigEndian l.passwordLength

theorem validAuthString_iff {text : Bytes} {limit : ℕ} :
    validAuthString text limit = true ↔ text.length ≠ 0 ∧ text.length ≤ limit ∧ validString text = true := by
  simp [validAuthString]

structure AuthLayout.Framed (l : AuthLayout) : Prop where
  magic : l.magic = authMagic
  version : l.version = authProtocolVersion
  framed : l.request.Framed
  lengths : l.identity.length = l.userLength.toNat + ofBigEndian l.passwordLength

theorem AuthLayout.Consistent.framed (h : l.Consistent) : l.Framed :=
  ⟨h.magic, h.version, h.acceptable.framed, h.lengths⟩

theorem decode_of_framed (h : l.Framed) :
    decodeAuthRequest l.bytes = if validWorkerMetadata l.request then .ok l.request else .error .authWorkerMetadata := by
  obtain ⟨hu0, hu, -⟩ := validAuthString_iff.mp h.framed.user
  obtain ⟨hp0, hp, -⟩ := validAuthString_iff.mp h.framed.password
  have hlen := h.lengths
  have huser : l.request.user.length = l.userLength.toNat := by
    simp only [AuthLayout.request, length_take]
    omega
  have hpass : l.request.password.length = ofBigEndian l.passwordLength := by
    simp only [AuthLayout.request, length_drop]
    omega
  have hrange : ¬ (l.bytes.length < 48 ∨ l.bytes.length > maximumAuthFrameLen) := by
    rw [l.bytes_length, maximumAuthFrameLen]
    omega
  have hids : ¬ (l.userLength.toNat = 0 ∨ l.userLength.toNat > maximumUserLength ∨
      ofBigEndian l.passwordLength = 0 ∨ ofBigEndian l.passwordLength > maximumPasswordLen) := by
    omega
  have htotal : ¬ l.bytes.length ≠ 48 + l.userLength.toNat + ofBigEndian l.passwordLength := by
    rw [l.bytes_length]
    omega
  unfold decodeAuthRequest
  simp only [l.fields, l.field_user, l.drop_password, if_neg hrange, if_neg hids, if_neg htotal]
  change (if _ then _ else if l.request.sessionID = zeroSession then _ else if l.request.workerEpoch = 0 then _
    else if l.request.laneGeneration = 0 then _
    else do
      validateAuthStrings l.request.user l.request.password
      if ¬ validWorkerMetadata l.request then _ else .ok l.request) = _
  simp [h.magic, h.version, h.framed.session, h.framed.epoch, h.framed.generation,
    validateAuthStrings_ok h.framed.user h.framed.password, bind, Except.bind]
  cases validWorkerMetadata l.request <;> rfl

theorem decode_of_consistent (h : l.Consistent) : decodeAuthRequest l.bytes = .ok l.request := by
  rw [decode_of_framed h.framed, if_pos h.acceptable.metadata]

theorem consistent_of_decode (h : decodeAuthRequest l.bytes = .ok r) : l.Consistent ∧ l.request = r := by
  unfold decodeAuthRequest at h
  simp only [l.fields, l.field_user, l.drop_password, l.bytes_length] at h
  split_ifs at h with hrange hmagic hs he hg hids htotal hm
  · obtain ⟨_, hv, hr⟩ := exists_ok_bind h
    obtain ⟨hu, hp⟩ := valid_of_validateAuthStrings hv
    simp only [not_or, not_not] at hmagic
    exact ⟨⟨hmagic.1, hmagic.2, ⟨hu, hp, hs, hm, he, hg⟩, by omega⟩, Except.ok.inj hr⟩
  · obtain ⟨_, -, hr⟩ := exists_ok_bind h
    cases hr

theorem sessionIDOf_toList (s : SessionID) : sessionIDOf s.toList = s := by
  ext i hi
  simp [sessionIDOf]

theorem toList_sessionIDOf {b : Bytes} (h : b.length = 16) : (sessionIDOf b).toList = b := by
  apply ext_getElem
  · simp [h]
  · intro i hi hb
    simp [sessionIDOf, hb]

def layoutOf (r : AuthRequest) : AuthLayout where
  magic := authMagic
  version := authProtocolVersion
  session := r.sessionID.toList
  conv := bigEndian 4 r.conv.toNat
  workerID := bigEndian 2 r.workerID.toNat
  workerTotal := bigEndian 2 r.workerTotal.toNat
  epoch := bigEndian 8 r.workerEpoch.toNat
  generation := bigEndian 8 r.laneGeneration.toNat
  userLength := UInt8.ofNat r.user.length
  passwordLength := bigEndian 2 (r.password.length % 65536)
  identity := r.user ++ r.password
  magic_length := rfl
  session_length := r.sessionID.length_toList
  conv_length := bigEndian_length _ _
  workerID_length := bigEndian_length _ _
  workerTotal_length := bigEndian_length _ _
  epoch_length := bigEndian_length _ _
  generation_length := bigEndian_length _ _
  passwordLength_length := bigEndian_length _ _

theorem layoutOf_bytes (r : AuthRequest) : (layoutOf r).bytes = authFrame r := rfl

theorem AuthRequest.Framed.userLength (h : r.Framed) : (UInt8.ofNat r.user.length).toNat = r.user.length := by
  have hle : r.user.length ≤ 64 := (validAuthString_iff.mp h.user).2.1
  rw [UInt8.toNat_ofNat']
  omega

theorem AuthRequest.Framed.passwordLength (h : r.Framed) :
    ofBigEndian (bigEndian 2 (r.password.length % 65536)) = r.password.length := by
  have hle : r.password.length ≤ 256 := (validAuthString_iff.mp h.password).2.1
  rw [ofBigEndian_bigEndian (by omega)]
  omega

theorem layoutOf_request (h : r.Framed) :
    (layoutOf r).request = { r with protocolVersion := authProtocolVersion } := by
  simp only [AuthLayout.request, layoutOf, h.userLength, sessionIDOf_toList, ofBigEndian_uint16, ofBigEndian_uint32,
    ofBigEndian_uint64, UInt16.ofNat_toNat, UInt32.ofNat_toNat, UInt64.ofNat_toNat, take_left, drop_left]

theorem layoutOf_framed (h : r.Framed) : (layoutOf r).Framed := by
  refine ⟨rfl, rfl, ?_, ?_⟩
  · rw [layoutOf_request h]
    exact ⟨h.user, h.password, h.session, h.epoch, h.generation⟩
  · simp only [layoutOf, h.userLength, h.passwordLength, length_append]

theorem authFrame_request (h : l.Consistent) : authFrame l.request = l.bytes := by
  have hlen := h.lengths
  have huser : l.request.user.length = l.userLength.toNat := by
    simp only [AuthLayout.request, length_take]
    omega
  have hpass : l.request.password.length % 65536 = ofBigEndian l.passwordLength := by
    have hlt := ofBigEndian_lt l.passwordLength
    rw [l.passwordLength_length] at hlt
    simp only [AuthLayout.request, length_drop]
    omega
  have hback := bigEndian_ofBigEndian l.passwordLength
  rw [l.passwordLength_length] at hback
  have hid : l.request.user ++ l.request.password = l.identity := take_append_drop _ _
  rw [authFrame, huser, hpass, hback, hid]
  simp only [AuthLayout.request, toList_sessionIDOf l.session_length, bigEndian_uint16_ofNat l.workerID_length,
    bigEndian_uint16_ofNat l.workerTotal_length, bigEndian_uint32_ofNat l.conv_length,
    bigEndian_uint64_ofNat l.epoch_length, bigEndian_uint64_ofNat l.generation_length, UInt8.ofNat_toNat,
    AuthLayout.bytes, h.magic, h.version]

theorem decode_authFrame (h : r.Framed) : decodeAuthRequest (authFrame r) =
      if validWorkerMetadata r then .ok { r with protocolVersion := authProtocolVersion }
      else .error .authWorkerMetadata := by
  rw [← layoutOf_bytes, decode_of_framed (layoutOf_framed h), layoutOf_request h]
  rfl

theorem exists_consistent_of_decode (h : decodeAuthRequest frame = .ok r) :
    ∃ l : AuthLayout, l.bytes = frame ∧ l.Consistent ∧ l.request = r := by
  have hlen : 48 ≤ frame.length := by
    unfold decodeAuthRequest at h
    split_ifs at h with hrange
    all_goals omega
  obtain ⟨l, rfl⟩ := AuthLayout.exists_bytes hlen
  exact ⟨l, rfl, consistent_of_decode h⟩

theorem encode_of_decode (h : decodeAuthRequest frame = .ok r) : encodeAuthRequest r = .ok frame := by
  obtain ⟨l, rfl, hl, rfl⟩ := exists_consistent_of_decode h
  rw [encode_of_acceptable hl.acceptable, authFrame_request hl]

theorem readFull_append (x rest : Bytes) {n : ℕ} (h : n = x.length) : readFull (x ++ rest) n = .ok (x, rest) := by
  subst h
  simp [readFull]

theorem of_readFull {stream x rest : Bytes} {n : ℕ} (h : readFull stream n = .ok (x, rest)) :
    stream = x ++ rest := by
  unfold readFull at h
  split_ifs at h with hn
  obtain ⟨rfl, rfl⟩ := Prod.mk.inj (Except.ok.inj h)
  exact (take_append_drop n stream).symm

theorem getD_append_left (x y : Bytes) {i : ℕ} (h : i < x.length) : (x ++ y).getD i 0 = x.getD i 0 := by
  simp [getD_eq_getElem?_getD, getElem?_append_left h]

theorem field_append_left (x y : Bytes) {lo hi : ℕ} (h : hi ≤ x.length) : field (x ++ y) lo hi = field x lo hi := by
  rw [field, take_append_of_le_length h, field]

theorem read_framed {l : AuthLayout} (h : l.Framed) (rest : Bytes) :
    readAuthRequest (l.bytes ++ rest) = (decodeAuthRequest l.bytes).map fun request => (request, rest) := by
  obtain ⟨hu0, hu, -⟩ := validAuthString_iff.mp h.framed.user
  obtain ⟨hp0, hp, -⟩ := validAuthString_iff.mp h.framed.password
  have hlen := h.lengths
  simp only [AuthLayout.request, length_take, length_drop] at hu0 hu hp0 hp
  obtain ⟨-, -, -, -, -, -, -, -, huser, hpass⟩ := l.fields
  rw [l.bytes_eq, getD_append_left _ _ (by simp)] at huser
  rw [l.bytes_eq, field_append_left _ _ (by simp)] at hpass
  unfold readAuthRequest
  rw [l.bytes_eq, append_assoc, readFull_append _ _ l.header_length.symm]
  simp only [bind, Except.bind, huser, hpass]
  rw [if_neg (by simp only [maximumAuthFrameLen]; omega), if_pos (by omega),
    readFull_append _ _ (by omega : 48 + l.userLength.toNat + ofBigEndian l.passwordLength - 48 = l.identity.length)]
  cases hdecode : decodeAuthRequest (l.header ++ l.identity) with
  | error e | ok r => simp only [hdecode, Except.map]

theorem read_authFrame {r : AuthRequest} (h : r.Framed) (rest : Bytes) : readAuthRequest (authFrame r ++ rest) =
      if validWorkerMetadata r then .ok ({ r with protocolVersion := authProtocolVersion }, rest)
      else .error .authWorkerMetadata := by
  rw [← layoutOf_bytes, read_framed (layoutOf_framed h), layoutOf_bytes, decode_authFrame h]
  split <;> rfl

theorem of_read {stream rest : Bytes} {r : AuthRequest} (h : readAuthRequest stream = .ok (r, rest)) :
    ∃ frame, stream = frame ++ rest ∧ decodeAuthRequest frame = .ok r := by
  obtain ⟨⟨header, tail⟩, hheader, hbody⟩ := exists_ok_bind h
  obtain rfl := of_readFull hheader
  dsimp only at hbody
  split_ifs at hbody with hbig hmore
  · obtain ⟨⟨identity, tail'⟩, hidentity, hlast⟩ := exists_ok_bind hbody
    obtain rfl := of_readFull hidentity
    obtain ⟨r', hdecode, hr⟩ := exists_ok_bind hlast
    obtain ⟨rfl, rfl⟩ := Prod.mk.inj (Except.ok.inj hr)
    exact ⟨header ++ identity, (append_assoc _ _ _).symm, hdecode⟩
  · obtain ⟨p, hnone, hlast⟩ := exists_ok_bind hbody
    cases hnone
    obtain ⟨r', hdecode, hr⟩ := exists_ok_bind hlast
    obtain ⟨rfl, rfl⟩ := Prod.mk.inj (Except.ok.inj hr)
    exact ⟨header ++ [], by rw [append_nil], hdecode⟩

theorem authRequest_bijective : (∀ r frame, encodeAuthRequest r = .ok frame →
      decodeAuthRequest frame = .ok { r with protocolVersion := authProtocolVersion }) ∧
    (∀ r frame, decodeAuthRequest frame = .ok r → encodeAuthRequest r = .ok frame) ∧
    (∀ r frame rest, decodeAuthRequest frame = .ok r → readAuthRequest (frame ++ rest) = .ok (r, rest)) ∧
    (∀ r stream rest, readAuthRequest stream = .ok (r, rest) →
      ∃ frame, stream = frame ++ rest ∧ encodeAuthRequest r = .ok frame) := by
  refine ⟨?_, ?_, ?_, ?_⟩
  · intro r frame h
    obtain ⟨hr, rfl⟩ := acceptable_of_encode h
    rw [decode_authFrame hr.framed, if_pos hr.metadata]
  · intro r frame h
    exact encode_of_decode h
  · intro r frame rest h
    obtain ⟨l, rfl, hl, rfl⟩ := exists_consistent_of_decode h
    rw [read_framed hl.framed, decode_of_consistent hl]
    rfl
  · intro r stream rest h
    obtain ⟨frame, hstream, hdecode⟩ := of_read h
    exact ⟨frame, hstream, encode_of_decode hdecode⟩

def aliceRequest : AuthRequest where
  protocolVersion := 0
  sessionID := Vector.replicate 16 1
  conv := 7
  workerID := 2
  workerTotal := 16
  workerEpoch := 9
  laneGeneration := 1
  user := [0x61]
  password := [0x70, 0x77]

theorem authRequest_bijective_alice : encodeAuthRequest aliceRequest = .ok (authFrame aliceRequest) ∧
      decodeAuthRequest (authFrame aliceRequest) =
        .ok { aliceRequest with protocolVersion := authProtocolVersion } ∧
      readAuthRequest (authFrame aliceRequest ++ [1, 2]) =
        .ok ({ aliceRequest with protocolVersion := authProtocolVersion }, [1, 2]) := by
  have hencode : encodeAuthRequest aliceRequest = .ok (authFrame aliceRequest) := by decide +kernel
  have hdecode := authRequest_bijective.1 _ _ hencode
  exact ⟨hencode, hdecode, authRequest_bijective.2.2.1 _ _ _ hdecode⟩

end Hydracore.Parasite
