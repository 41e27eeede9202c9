import MeshlyCore.Handshake.World
import MeshlyCore.Lib.Pipe
import MeshlyCore.Protocol.Reading

/-!
# The handshake on byte streams

The sessions of `MeshlyCore.Handshake.Session` at their ends of a byte stream. A session writes
the frames it has to write, in as many pieces as the stream makes of them, and then waits for the
next frame, of which it takes no more than the frame's bytes.
-/

namespace MeshlyCore.Handshake

open Protocol Streams

/-! ## Frames of messages -/

/-- The frame a message is sent as. The `proof` of a `DataOpen` is a placeholder. -/
def Message.frame : Message Bytes32 → Option Frame
  | .authHello => some .authHello
  | .authNonce nonce => some (.authNonce nonce)
  | .authProof mac => some (.authProof mac)
  | .authOk => some .authOk
  | .authErr code reason => some (.authErr code reason)
  | .dataOpen svc provider consumer => some (.dataOpen svc provider consumer (.replicate 0))
  | .other => none

/-- What a session writes. -/
def wireBytes (json : SerdeJson) (msgs : List (Message Bytes32)) : Bytes :=
  (Frame.writeFrames json (msgs.filterMap Message.frame) ⟨[], none⟩).2.out

/-! ## A session at its end of the stream -/

structure Peer (φ : Type) where
  phase : φ
  /-- The bytes of the next frame that have come in. -/
  acc : Bytes
  /-- What is still to be written. -/
  out : Bytes
  deriving DecidableEq

/-- A session takes its next step when a frame is complete, or when it cannot be read. -/
inductive Turn where
  | frame (writeOk : Bool)
  | lost (writeOk : Bool)
  deriving DecidableEq

/-- A session that waits for a frame in the phases `waits` and does `turn` with it. -/
def Peer.next {φ : Type} (json : SerdeJson) (waits : φ → Bool)
    (turn : Bool → φ → Input Bytes32 → φ × List (Message Bytes32)) (p : Peer φ) :
    PeerAct UInt8 Turn → Option (Peer φ)
  | .writes xs =>
      if xs ≠ [] ∧ xs <+: p.out then some { p with out := p.out.drop xs.length } else none
  | .reads xs =>
      if p.out = [] ∧ waits p.phase ∧ xs ≠ [] ∧ xs.length ≤ Frame.wanted p.acc then
        some { p with acc := p.acc ++ xs }
      else none
  | .moves (.frame writeOk) =>
      if p.out = [] ∧ waits p.phase ∧ Frame.wanted p.acc = 0 then
        let (phase, msgs) := turn writeOk p.phase (.ofRead (Frame.readFrom json ⟨p.acc, none⟩))
        some ⟨phase, [], wireBytes json msgs⟩
      else none
  | .moves (.lost writeOk) =>
      if p.out = [] ∧ waits p.phase then
        let (phase, msgs) := turn writeOk p.phase .lost
        some ⟨phase, [], wireBytes json msgs⟩
      else none

/-! ## The consumer and the provider -/

def ConsumerPhase.waits : ConsumerPhase → Bool
  | .awaitNonce => true
  | .awaitVerdict => true
  | _ => false

/-- `dial_direct`, and `dial_relay` after its `DataOpen`. -/
def dialNext (json : SerdeJson) (hmac : Bytes → Bytes → Bytes32) (spec : ConsumerSpec) :
    Peer ConsumerPhase → PeerAct UInt8 Turn → Option (Peer ConsumerPhase) :=
  Peer.next json ConsumerPhase.waits fun _ phase input =>
    ((dialStep hmac spec phase input).1, proofMessages (dialStep hmac spec phase input).2)

def ProviderPhase.waits : ProviderPhase Bytes32 → Bool
  | .awaitHello => true
  | .awaitProof _ => true
  | _ => false

/-- `ExposeHandler::handle` and `StaticHandler::handle`, with the nonce they draw. -/
def providerNext (json : SerdeJson) (hmac : Bytes → Bytes → Bytes32) (serving : Serving)
    (spec : ProviderSpec) (nonce : Bytes32) :
    Peer (ProviderPhase Bytes32) → PeerAct UInt8 Turn → Option (Peer (ProviderPhase Bytes32)) :=
  Peer.next json ProviderPhase.waits fun writeOk phase input =>
    Provider.handle hmac ⟨serving, spec, phase⟩ nonce writeOk input

/-- A dial that has its stream to the provider, through a relay or not. -/
def dialStart (json : SerdeJson) (spec : ConsumerSpec) : Peer ConsumerPhase :=
  ⟨.awaitNonce, [], wireBytes json (dialOpening spec .direct)⟩

def providerStart : Peer (ProviderPhase Bytes32) := ⟨.awaitHello, [], []⟩

/-- The handshake has succeeded on both sides. -/
def Succeeded (consumer : Peer ConsumerPhase) (provider : Peer (ProviderPhase Bytes32)) : Prop :=
  consumer.phase = .connected ∧
    ∃ nonce mac serving, provider.phase = .authenticated nonce mac serving

end MeshlyCore.Handshake
