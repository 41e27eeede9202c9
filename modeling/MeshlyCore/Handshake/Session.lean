import MeshlyCore.Protocol.Wire

/-!
# The HMAC handshake, one session at a time

A provider session (`ExposeHandler::handle`, `StaticHandler::handle`) reads `AuthHello`, sends a
random nonce, reads a proof and compares it with `HMAC(secret, service_name || nonce)`. A
consumer session (`dial_direct`, `dial_relay`) answers whatever nonce it is given with its own
proof. Both are automata driven by the frames they read.

The MAC is a parameter: `hmac key message`, with results in any type. At `Bytes32` these are the
functions of `protocol.rs`, `expose.rs`, `static_http.rs` and `consume.rs`; an ideal MAC has no
32-byte results, so the security argument is made over a type that can hold one.
-/

namespace MeshlyCore.Handshake

open Protocol

variable {Mac : Type}

/-! ## Proofs -/

/-- `HMAC_SHA256(shared_secret, service_name || nonce)`. -/
def computeProof (hmac : Bytes → Bytes → Mac) (sharedSecret : Bytes) (serviceName : String)
    (nonce : Bytes32) : Mac :=
  hmac sharedSecret (utf8 serviceName ++ nonce.val)

def verifyProof [DecidableEq Mac] (hmac : Bytes → Bytes → Mac) (sharedSecret : Bytes)
    (serviceName : String) (nonce : Bytes32) (proof : Mac) : Bool :=
  computeProof hmac sharedSecret serviceName nonce = proof

/-- The consumer's side of `computeProof`. -/
def makeProof (hmac : Bytes → Bytes → Mac) (secret : Bytes) (service : String)
    (nonce : Bytes32) : Mac :=
  computeProof hmac secret service nonce

/-- **The MAC input determines its parts**: the nonce is always the last 32 bytes, so the
missing separator costs nothing. -/
theorem macInput_injective {s t : String} {m n : Bytes32}
    (h : utf8 s ++ m.val = utf8 t ++ n.val) : s = t ∧ m = n := by
  have hlen : m.val.length = n.val.length := by rw [m.property, n.property]
  obtain ⟨hs, hm⟩ := List.append_inj' h hlen
  exact ⟨utf8_injective hs, Subtype.ext hm⟩

theorem computeProof_injective {hmac : Bytes → Bytes → Mac} (hinj : Function.Injective2 hmac)
    {k l : Bytes} {s t : String} {m n : Bytes32}
    (h : computeProof hmac k s m = computeProof hmac l t n) : k = l ∧ s = t ∧ m = n := by
  obtain ⟨hk, hmsg⟩ := hinj h
  exact ⟨hk, macInput_injective hmsg⟩

/-! ## Messages -/

/-- A frame as the handshake sees it. -/
inductive Message (Mac : Type) where
  | authHello
  | authNonce (nonce : Bytes32)
  | authProof (mac : Mac)
  | authOk
  | authErr (code : UInt8) (reason : String)
  | dataOpen (targetService targetProvider consumerNodeId : String)
  | other
  deriving DecidableEq

/-- The message a frame is. -/
def Message.ofFrame : Frame → Message Bytes32
  | .authHello => .authHello
  | .authNonce nonce => .authNonce nonce
  | .authProof mac => .authProof mac
  | .authOk => .authOk
  | .authErr code reason => .authErr code reason
  | .dataOpen svc provider consumer _ => .dataOpen svc provider consumer
  | _ => .other

/-- What a `read_from` of the handshake gives: a frame, or an error. -/
inductive Input (Mac : Type) where
  | received (m : Message Mac)
  | lost

def Input.ofRead : Outcome FrameError (Frame × Reader) → Input Bytes32
  | .ok (f, _) => .received (.ofFrame f)
  | _ => .lost

/-! ## The provider -/

/-- The fields of `ExposeSpec` and `StaticSpec` the handshake reads. -/
structure ProviderSpec where
  name : String
  sharedSecret : Bytes
  deriving DecidableEq

/-- What an authenticated session does. -/
inductive Serving where
  | backend
  | http
  deriving DecidableEq

inductive ProviderPhase (Mac : Type) where
  | awaitHello
  | awaitProof (nonce : Bytes32)
  /-- `AuthOk` is written; the backend is dialled or HTTP is served. -/
  | authenticated (nonce : Bytes32) (mac : Mac) (serving : Serving)
  | closed
  deriving DecidableEq

/-- The handshake both handlers run. `fresh` is what `OsRng` fills the nonce with, `writeOk`
whether the write of this step goes through; the new phase comes with the messages sent. -/
def providerHandshake [DecidableEq Mac] (serving : Serving) (hmac : Bytes → Bytes → Mac)
    (spec : ProviderSpec) (fresh : Bytes32) (writeOk : Bool) :
    ProviderPhase Mac → Input Mac → ProviderPhase Mac × List (Message Mac)
  | .awaitHello, .received .authHello =>
      (if writeOk then .awaitProof fresh else .closed, [.authNonce fresh])
  | .awaitHello, _ => (.closed, [])
  | .awaitProof nonce, .received (.authProof mac) =>
      if verifyProof hmac spec.sharedSecret spec.name nonce mac then
        if writeOk then (.authenticated nonce mac serving, [.authOk]) else (.closed, [])
      -- The write of `AuthErr` may fail; the session ends either way.
      else (.closed, [.authErr authErrBadProof "bad HMAC proof"])
  | .awaitProof _, _ => (.closed, [])
  | .authenticated nonce mac serving, _ => (.authenticated nonce mac serving, [])
  | .closed, _ => (.closed, [])

/-- `ExposeHandler::handle`. -/
def exposeHandle [DecidableEq Mac] (hmac : Bytes → Bytes → Mac) :=
  providerHandshake .backend hmac

/-- `StaticHandler::handle`. -/
def staticHandle [DecidableEq Mac] (hmac : Bytes → Bytes → Mac) :=
  providerHandshake .http hmac

/-! ## The consumer -/

/-- The fields of `ConsumeSpec` the handshake reads. -/
structure ConsumerSpec where
  name : String
  sharedSecret : Bytes
  deriving DecidableEq

/-- The two ways to dial: `dial_direct`, and `dial_relay` with the ids its `DataOpen` carries. -/
inductive Dial where
  | direct
  | relay (targetProvider consumerNodeId : String)
  deriving DecidableEq

/-- How a dial fails once its stream is open. -/
inductive DialError where
  | lostBeforeProof
  | authErr (code : UInt8) (reason : String)
  | expectedNonce
  | rejected (code : UInt8) (reason : String)
  | expectedOk
  | lostAfterProof
  deriving DecidableEq

inductive ConsumerPhase where
  | awaitNonce
  | awaitVerdict
  | connected
  | failed (e : DialError)
  deriving DecidableEq

/-- The messages a dial opens with. -/
def dialOpening (spec : ConsumerSpec) : Dial → List (Message Mac)
  | .direct => [.authHello]
  | .relay targetProvider consumerNodeId =>
      [.dataOpen spec.name targetProvider consumerNodeId, .authHello]

/-- One read of a dial. The proof comes with the nonce it answers. -/
def dialStep (hmac : Bytes → Bytes → Mac) (spec : ConsumerSpec) :
    ConsumerPhase → Input Mac → ConsumerPhase × Option (Bytes32 × Mac)
  | .awaitNonce, .received (.authNonce nonce) =>
      (.awaitVerdict, some (nonce, makeProof hmac spec.sharedSecret spec.name nonce))
  | .awaitNonce, .received (.authErr code reason) => (.failed (.authErr code reason), none)
  | .awaitNonce, .received _ => (.failed .expectedNonce, none)
  | .awaitNonce, .lost => (.failed .lostBeforeProof, none)
  | .awaitVerdict, .received .authOk => (.connected, none)
  | .awaitVerdict, .received (.authErr code reason) => (.failed (.rejected code reason), none)
  | .awaitVerdict, .received _ => (.failed .expectedOk, none)
  | .awaitVerdict, .lost => (.failed .lostAfterProof, none)
  | .connected, _ => (.connected, none)
  | .failed e, _ => (.failed e, none)

end MeshlyCore.Handshake
