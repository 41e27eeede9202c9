import MeshlyCore.Lib.Bytes
import MeshlyCore.Lib.Outcome

/-!
# Wire frames

Following `crates/common/src/protocol.rs`. A frame travels as
`[tag: u8][len: u16 LE][payload: len bytes]`. Tags below `0x10` belong to the data plane's
handshake, tags from `0x10` on to the control plane.

JSON is not ours: `SerdeJson` holds, for each of the six JSON structs, what `serde_json::to_vec`
and `serde_json::from_slice` return. Nothing is assumed of it here.

`decode` indexes and slices the payload, so it returns an `Outcome`, in which a panic is
visible. Everything else is total.
-/

namespace MeshlyCore.Protocol

/-! ## Tags -/

/-- The tag constants. -/
inductive Tag where
  | dataAuthHello
  | dataAuthNonce
  | dataAuthProof
  | dataAuthOk
  | dataAuthErr
  | dataOpen
  | controlHello
  | controlHelloOk
  | controlRegister
  | controlRegisterOk
  | controlSubscribe
  | controlSubscribeOk
  | controlHeartbeat
  | controlError
  deriving DecidableEq, Repr

namespace Tag

def byte : Tag → UInt8
  | dataAuthHello => 0x06
  | dataAuthNonce => 0x01
  | dataAuthProof => 0x02
  | dataAuthOk => 0x03
  | dataAuthErr => 0x04
  | dataOpen => 0x05
  | controlHello => 0x10
  | controlHelloOk => 0x11
  | controlRegister => 0x12
  | controlRegisterOk => 0x13
  | controlSubscribe => 0x14
  | controlSubscribeOk => 0x15
  | controlHeartbeat => 0x16
  | controlError => 0x1F

/-- The tags in the order `decode` tries them. -/
def all : List Tag :=
  [dataAuthHello, dataAuthNonce, dataAuthProof, dataAuthOk, dataAuthErr, dataOpen, controlHello,
    controlHelloOk, controlRegister, controlRegisterOk, controlSubscribe, controlSubscribeOk,
    controlHeartbeat, controlError]

/-- The tag a byte stands for, if any. -/
def ofByte (b : UInt8) : Option Tag := all.find? fun t => t.byte == b

@[simp] theorem ofByte_byte (t : Tag) : ofByte t.byte = some t := by
  cases t <;> rfl

end Tag

/-- Generic bad HMAC proof. -/
def authErrBadProof : UInt8 := 1

/-! ## Errors -/

/-- Errors raised while reading or writing frames. `utf8` keeps the rejected bytes, as
`FromUtf8Error` does. -/
inductive FrameError where
  | io (msg : String)
  | shortHeader
  | shortPayload (wanted got : Nat)
  | tooLong (len max : Nat)
  | unknownTag (tag : UInt8)
  | utf8 (bytes : Bytes)
  deriving DecidableEq, Repr

/-- Maximum single-frame payload size: 32 KiB. -/
def maxFramePayload : Nat := 32 * 1024

def u16Max : Nat := 65535

/-! ## Frames -/

structure Hello where
  groupToken : String
  clientInfo : String
  deriving DecidableEq, Repr

structure HelloOk where
  sessionId : UInt64
  deriving DecidableEq, Repr

structure Register where
  service : String
  deriving DecidableEq, Repr

structure RegisterOk where
  service : String
  deriving DecidableEq, Repr

structure Subscribe where
  service : String
  deriving DecidableEq, Repr

structure SubscribeOk where
  service : String
  providerNodeId : Option String
  relayRequired : Bool
  deriving DecidableEq, Repr

inductive Frame where
  | authHello
  | authNonce (nonce : Bytes32)
  | authProof (mac : Bytes32)
  | authOk
  | authErr (code : UInt8) (reason : String)
  | dataOpen (targetService targetProvider consumerNodeId : String) (proof : Bytes32)
  | hello (h : Hello)
  | helloOk (h : HelloOk)
  | register (r : Register)
  | registerOk (r : RegisterOk)
  | subscribe (s : Subscribe)
  | subscribeOk (s : SubscribeOk)
  | heartbeat
  | controlError (code : UInt16) (reason : String)
  deriving DecidableEq, Repr

/-- `serde_json` on one struct. -/
structure JsonCodec (T : Type) where
  toVec : T → Except String Bytes
  fromSlice : Bytes → Except String T

/-- `serde_json` on the six JSON structs. -/
structure SerdeJson where
  hello : JsonCodec Hello
  helloOk : JsonCodec HelloOk
  register : JsonCodec Register
  registerOk : JsonCodec RegisterOk
  subscribe : JsonCodec Subscribe
  subscribeOk : JsonCodec SubscribeOk

def writeJson {T : Type} (json : JsonCodec T) (v : T) : Except FrameError Bytes :=
  match json.toVec v with
  | .error e => .error (.io s!"json encode: {e}")
  | .ok bytes => if bytes.length > u16Max then .error (.tooLong bytes.length u16Max) else .ok bytes

def readJson {T : Type} (json : JsonCodec T) (cur : Bytes) : Outcome FrameError T :=
  match json.fromSlice cur with
  | .error e => .err (.io s!"json decode: {e}")
  | .ok v => .ok v

namespace Frame

/-- The tag of a frame. -/
def tag : Frame → Tag
  | authHello => .dataAuthHello
  | authNonce _ => .dataAuthNonce
  | authProof _ => .dataAuthProof
  | authOk => .dataAuthOk
  | authErr _ _ => .dataAuthErr
  | dataOpen _ _ _ _ => .dataOpen
  | hello _ => .controlHello
  | helloOk _ => .controlHelloOk
  | register _ => .controlRegister
  | registerOk _ => .controlRegisterOk
  | subscribe _ => .controlSubscribe
  | subscribeOk _ => .controlSubscribeOk
  | heartbeat => .controlHeartbeat
  | controlError _ _ => .controlError

/-! ## Encoding -/

/-- One length-prefixed string of `DataOpen`. -/
def putPrefixed (s : String) : Except FrameError Bytes :=
  if (utf8 s).length > u16Max then .error (.tooLong (utf8 s).length u16Max)
  else .ok (putU16Le (utf8 s).length ++ utf8 s)

/-- Serialize a frame's payload (no tag or length prefix). -/
def encodePayload (json : SerdeJson) : Frame → Except FrameError Bytes
  | authHello => .ok []
  | authNonce nonce => .ok nonce.val
  | authProof mac => .ok mac.val
  | authOk => .ok []
  | authErr code reason => .ok (code :: utf8 reason)
  | dataOpen targetService targetProvider consumerNodeId proof => do
      let svc ← putPrefixed targetService
      let provider ← putPrefixed targetProvider
      let consumer ← putPrefixed consumerNodeId
      .ok (svc ++ provider ++ consumer ++ proof.val)
  | hello h => writeJson json.hello h
  | helloOk h => writeJson json.helloOk h
  | register r => writeJson json.register r
  | registerOk r => writeJson json.registerOk r
  | subscribe s => writeJson json.subscribe s
  | subscribeOk s => writeJson json.subscribeOk s
  | heartbeat => .ok []
  | controlError code reason => .ok (putU16Le code.toNat ++ utf8 reason)

/-! ## Decoding -/

/-- `String::from_utf8`. -/
def stringFromUtf8 (b : Bytes) : Outcome FrameError String :=
  match fromUtf8 b with
  | some s => .ok s
  | none => .err (.utf8 b)

/-- `u16::from_le_bytes([payload[i], payload[i + 1]])`. -/
def readU16 (payload : Bytes) (i : Nat) : Outcome FrameError Nat := do
  let lo ← Outcome.index payload i
  let hi ← Outcome.index payload (i + 1)
  .ok (u16FromLe lo hi)

/-- The `DATA_OPEN` arm of `decode`. The provider slice and the consumer's length bytes are
taken before any check that covers them. -/
def decodeDataOpen (payload : Bytes) : Outcome FrameError Frame := do
  if payload.length < 2 then .err (.shortPayload 2 payload.length) else
  let svcLen ← readU16 payload 0
  let needMin := 2 + svcLen + 2 + 2 + 32
  if payload.length < needMin then .err (.shortPayload needMin payload.length) else
  let svc ← stringFromUtf8 (← Outcome.slice payload 2 (2 + svcLen))
  let provLen ← readU16 payload (2 + svcLen)
  let provStart := 2 + svcLen + 2
  let provEnd := provStart + provLen
  let provider ← stringFromUtf8 (← Outcome.slice payload provStart provEnd)
  let consLen ← readU16 payload provEnd
  let consStart := provEnd + 2
  let consEnd := consStart + consLen
  let needWithCons := consEnd + 32
  if payload.length < needWithCons then .err (.shortPayload needWithCons payload.length) else
  let consumer ← stringFromUtf8 (← Outcome.slice payload consStart consEnd)
  match Bytes32.ofBytes? (← Outcome.slice payload consEnd (consEnd + 32)) with
  | some proof => .ok (dataOpen svc provider consumer proof)
  -- `copy_from_slice` panics on a length mismatch.
  | none => .panic

/-- The arms of `decode`, by tag. -/
def decodeAs (json : SerdeJson) (payload : Bytes) : Tag → Outcome FrameError Frame
  | .dataAuthHello =>
      if payload = [] then .ok authHello else .err (.shortPayload 0 payload.length)
  | .dataAuthNonce =>
      match Bytes32.ofBytes? payload with
      | some nonce => .ok (authNonce nonce)
      | none => .err (.shortPayload 32 payload.length)
  | .dataAuthProof =>
      match Bytes32.ofBytes? payload with
      | some mac => .ok (authProof mac)
      | none => .err (.shortPayload 32 payload.length)
  | .dataAuthOk => .ok authOk
  | .dataAuthErr => do
      if payload = [] then .err (.shortPayload 1 0) else
      let code ← Outcome.index payload 0
      let reason ← stringFromUtf8 (← Outcome.slice payload 1 payload.length)
      .ok (authErr code reason)
  | .dataOpen => decodeDataOpen payload
  | .controlHello => do .ok (hello (← readJson json.hello payload))
  | .controlHelloOk => do .ok (helloOk (← readJson json.helloOk payload))
  | .controlRegister => do .ok (register (← readJson json.register payload))
  | .controlRegisterOk => do .ok (registerOk (← readJson json.registerOk payload))
  | .controlSubscribe => do .ok (subscribe (← readJson json.subscribe payload))
  | .controlSubscribeOk => do .ok (subscribeOk (← readJson json.subscribeOk payload))
  | .controlHeartbeat => .ok heartbeat
  | .controlError => do
      if payload.length < 2 then .err (.shortPayload 2 payload.length) else
      let code ← readU16 payload 0
      let reason ← stringFromUtf8 (← Outcome.slice payload 2 payload.length)
      .ok (controlError (UInt16.ofNat code) reason)

/-- Parse a frame from tag and payload bytes. -/
def decode (json : SerdeJson) (tag : UInt8) (payload : Bytes) : Outcome FrameError Frame :=
  match Tag.ofByte tag with
  | some t => decodeAs json payload t
  | none => .err (.unknownTag tag)

/-- Decoding under a known tag byte runs that tag's arm. -/
@[simp] theorem decode_byte (json : SerdeJson) (t : Tag) (payload : Bytes) :
    decode json t.byte payload = decodeAs json payload t := by
  simp [decode]

end Frame

end MeshlyCore.Protocol
