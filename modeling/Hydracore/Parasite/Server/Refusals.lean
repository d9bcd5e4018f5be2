import Hydracore.Parasite.AuthCodec
import Hydracore.Parasite.Server.Handshake

/-!
The reason a client reads when the server turns its worker away.
`decodeAuthRequest` already rejects a worker count that `supportedWorkerCount`
does not know, so `refuseAuth` sees a decoding error before it looks at the
count.
-/

namespace Hydracore.Parasite.Server

open Formats Systems

def Incoming.ofRead : Except AuthError (AuthRequest × Bytes) → Incoming
  | .error _ => .malformed
  | .ok (req, _) => .request req

/-- The frame `handleQUICConn` writes on the auth stream. `session` is the generation of the session that
`getOrCreateSession` finds or creates for the request, `none` where it returns an error. -/
def handshakeAck (o : Options) (stream : Bytes) (session : Option Generation) : Bytes :=
  match refuseAuth o (.ofRead (readAuthRequest stream)) with
  | some reason => encodeAuthAck false 0 reason.code
  | none =>
    match session with
    | none => encodeAuthAck false 0 AuthReject.session.code
    | some generation => encodeAuthAck true generation.val AuthReject.unspecified.code

structure InOrder (r : AuthRequest) : Prop extends r.Framed where
  conv : r.conv ≠ 0
  worker : r.workerID < r.workerTotal

theorem InOrder.validWorkerMetadata_eq {r : AuthRequest} (h : InOrder r) :
    validWorkerMetadata r = supportedWorkerCount r.workerTotal := by
  simp [validWorkerMetadata, h.conv, h.worker]

section Answer

variable (o : Options) {r : AuthRequest} (rest : Bytes) (session : Option Generation)

def clientReads (r : AuthRequest) : Except AckError UInt64 :=
  decodeAuthAck (handshakeAck o (authFrame r ++ rest) session)

theorem clientReads_of_refused (reason : AuthReject)
    (h : refuseAuth o (.ofRead (readAuthRequest (authFrame r ++ rest))) = some reason) :
    clientReads o rest session r = .error (.rejected (authRejectReasonName reason.code)) := by
  simp only [clientReads, handshakeAck, h]
  exact decode_refused _ _

theorem clientReads_unsupported (h : InOrder r) (hcount : supportedWorkerCount r.workerTotal = false) :
    clientReads o rest session r = .error (.rejected "malformed authentication request") := by
  apply clientReads_of_refused o rest session .malformed
  rw [read_authFrame h.toFramed, h.validWorkerMetadata_eq, hcount]
  rfl

section

variable (h : InOrder r) (hcount : supportedWorkerCount r.workerTotal = true)
include h hcount

theorem refuseAuth_supported : refuseAuth o (.ofRead (readAuthRequest (authFrame r ++ rest))) =
      if r.workerTotal.toNat > o.maxWorkersPerSession then some .workerCount
      else if authorize o r.user r.password then none else some .credentials := by
  rw [read_authFrame h.toFramed, h.validWorkerMetadata_eq, hcount, if_pos rfl]
  simp only [Incoming.ofRead, refuseAuth, hcount, not_true_eq_false, if_false]
  cases authorize o r.user r.password <;> rfl

theorem clientReads_exceeding (hlimit : r.workerTotal.toNat > o.maxWorkersPerSession) :
    clientReads o rest session r = .error (.rejected "worker count refused by the server") := by
  apply clientReads_of_refused o rest session .workerCount
  rw [refuseAuth_supported o rest h hcount, if_pos hlimit]

theorem clientReads_unauthorized (hlimit : r.workerTotal.toNat ≤ o.maxWorkersPerSession)
    (hauth : authorize o r.user r.password = false) :
    clientReads o rest session r = .error (.rejected "user or password rejected") := by
  apply clientReads_of_refused o rest session .credentials
  rw [refuseAuth_supported o rest h hcount, if_neg (by omega), hauth]
  rfl

theorem clientReads_permitted (hlimit : r.workerTotal.toNat ≤ o.maxWorkersPerSession)
    (hauth : authorize o r.user r.password = true) :
    clientReads o rest session r =
      session.elim (.error (.rejected "session identity mismatch")) fun generation => .ok generation.val := by
  have hpass : refuseAuth o (.ofRead (readAuthRequest (authFrame r ++ rest))) = none := by
    rw [refuseAuth_supported o rest h hcount, if_neg (by omega), if_pos hauth]
  simp only [clientReads, handshakeAck, hpass]
  cases session with
  | none => exact decode_refused _ _
  | some generation =>
    apply (decode_accepted _ _).trans
    rw [if_neg generation.property]
    rfl

end

end Answer

structure Faithful (o : Options) (r : AuthRequest) (session : Option Generation)
    (answer : Except AckError UInt64) : Prop where
  accepted : supportedWorkerCount r.workerTotal = true → r.workerTotal.toNat ≤ o.maxWorkersPerSession →
    authorize o r.user r.password = true → ∃ generation, session = some generation ∧ answer = .ok generation.val
  workerCount : supportedWorkerCount r.workerTotal = false ∨ r.workerTotal.toNat > o.maxWorkersPerSession →
    answer = .error (.rejected "worker count refused by the server")
  credentials : supportedWorkerCount r.workerTotal = true → r.workerTotal.toNat ≤ o.maxWorkersPerSession →
    authorize o r.user r.password = false → answer = .error (.rejected "user or password rejected")
  malformed : answer ≠ .error (.rejected "malformed authentication request")

theorem refusals_faithful_iff (o : Options) {r : AuthRequest} (h : InOrder r) (rest : Bytes)
    (session : Option Generation) : Faithful o r session (clientReads o rest session r) ↔
      supportedWorkerCount r.workerTotal = true ∧
        (r.workerTotal.toNat ≤ o.maxWorkersPerSession → authorize o r.user r.password = true →
          session.isSome = true) := by
  constructor
  · intro hf
    refine ⟨?_, fun hlimit hauth => ?_⟩
    · by_contra hcount
      exact hf.malformed (clientReads_unsupported o rest session h (by simpa using hcount))
    · have hcount : supportedWorkerCount r.workerTotal = true := by
        by_contra hcount
        exact hf.malformed (clientReads_unsupported o rest session h (by simpa using hcount))
      obtain ⟨generation, rfl, -⟩ := hf.accepted hcount hlimit hauth
      rfl
  · rintro ⟨hcount, hsession⟩
    refine ⟨fun _ hlimit hauth => ?_, fun hbad => ?_, fun _ hlimit hauth => ?_, ?_⟩
    · obtain ⟨generation, rfl⟩ := Option.isSome_iff_exists.mp (hsession hlimit hauth)
      exact ⟨generation, rfl, clientReads_permitted o rest _ h hcount hlimit hauth⟩
    · have hlimit := hbad.resolve_left (by simp [hcount])
      exact clientReads_exceeding o rest session h hcount hlimit
    · exact clientReads_unauthorized o rest session h hcount hlimit hauth
    · by_cases hlimit : r.workerTotal.toNat ≤ o.maxWorkersPerSession
      · cases hauth : authorize o r.user r.password with
        | false =>
          rw [clientReads_unauthorized o rest session h hcount hlimit hauth]
          decide
        | true =>
          obtain ⟨generation, rfl⟩ := Option.isSome_iff_exists.mp (hsession hlimit hauth)
          rw [clientReads_permitted o rest _ h hcount hlimit hauth]
          intro hread
          cases hread
      · rw [clientReads_exceeding o rest session h hcount (by omega)]
        decide

def eightWorkers : Options where
  users := (∅ : Dict Bytes User).insert [0x61] ⟨[0x70, 0x77], 1⟩
  maxSessions := 1
  maxWorkersPerSession := 8
  maxPendingHandshakes := 1
  sessionIdleTimeout := 1
  sha256 := id

theorem inOrder_alice (total : UInt16) (h : 2 < total) : InOrder { aliceRequest with workerTotal := total } := by
  have hframed : aliceRequest.Framed := ⟨by decide, rfl, by decide, by decide, by decide⟩
  have hconv : aliceRequest.conv ≠ 0 := by decide
  exact ⟨⟨hframed.user, hframed.password, hframed.session, hframed.epoch, hframed.generation⟩, hconv, h⟩

theorem refusals_faithful_eight : Faithful eightWorkers { aliceRequest with workerTotal := 8 } (some ⟨9, by decide⟩)
        (clientReads eightWorkers [] (some ⟨9, by decide⟩) { aliceRequest with workerTotal := 8 }) ∧
      Faithful eightWorkers { aliceRequest with workerTotal := 12 } none
        (clientReads eightWorkers [] none { aliceRequest with workerTotal := 12 }) :=
  ⟨(refusals_faithful_iff _ (inOrder_alice 8 (by decide)) _ _).mpr ⟨by decide, fun _ _ => rfl⟩,
    (refusals_faithful_iff _ (inOrder_alice 12 (by decide)) _ _).mpr ⟨by decide, by decide⟩⟩

theorem worker_count_reported_malformed :
    InOrder { aliceRequest with workerTotal := 5 } ∧ supportedWorkerCount 5 = false ∧
      authorize eightWorkers aliceRequest.user aliceRequest.password = true ∧
      clientReads eightWorkers [] none { aliceRequest with workerTotal := 5 } =
        .error (.rejected "malformed authentication request") :=
  ⟨inOrder_alice 5 (by decide), rfl, rfl,
    clientReads_unsupported _ _ _ (inOrder_alice 5 (by decide)) rfl⟩

end Hydracore.Parasite.Server
