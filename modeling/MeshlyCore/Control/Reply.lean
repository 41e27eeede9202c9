import MeshlyCore.Control.Session
import MeshlyCore.Lib.Json
import MeshlyCore.Protocol.Wire

/-!
# Replies and the frame limit

`write_to` refuses a payload of more than 32 KiB, and a session that cannot write its reply ends.
The replies to a hello are short, and so is the reply to a registration, since only names of up
to 32 bytes are registered. The reply to a subscription repeats the name, whatever its length,
in an object with two more fields than the request has: a name that just fits into the request
does not fit into the reply.

**Theorem (`reply_fits_iff`).** The reply to a request fits into a frame exactly when the request
is not a `Subscribe` of a service whose name leaves no room for the rest of the reply.
-/

namespace MeshlyCore.Control

open Protocol Registry

/-! ## What `serde_json` writes -/

/-- `to_vec` on a `HelloOk`. -/
def helloOkVec (h : HelloOk) : Bytes :=
  Json.object [("session_id", Json.number h.sessionId.toNat)]

def registerOkVec (r : RegisterOk) : Bytes :=
  Json.object [("service", Json.string r.service)]

def subscribeOkVec (s : SubscribeOk) : Bytes :=
  Json.object [("service", Json.string s.service),
    ("provider_node_id", Json.option Json.string s.providerNodeId),
    ("relay_required", Json.bool s.relayRequired)]

/-- `serde_json` writes compact texts. -/
structure Compact (json : SerdeJson) : Prop where
  helloOk : ∀ h, json.helloOk.toVec h = .ok (helloOkVec h)
  registerOk : ∀ r, json.registerOk.toVec r = .ok (registerOkVec r)
  subscribeOk : ∀ s, json.subscribeOk.toVec s = .ok (subscribeOkVec s)

theorem length_helloOkVec_le (h : HelloOk) : (helloOkVec h).length ≤ 35 := by
  have hlen := Json.length_number_le (by decide : 0 < 20)
    (lt_trans h.sessionId.toNat_lt (by decide) : h.sessionId.toNat < 10 ^ 20)
  have hkey : (Json.string "session_id").length = 12 := by decide
  simp only [helloOkVec, Json.object, Json.fields, List.length_cons, List.length_append,
    List.length_nil, hkey]
  omega

theorem length_registerOkVec (r : RegisterOk) :
    (registerOkVec r).length = (Json.escaped r.service).length + 14 := by
  have hkey : (Json.string "service").length = 9 := by decide
  simp only [registerOkVec, Json.object, Json.fields, List.length_cons, List.length_append,
    List.length_nil, hkey, Json.length_string]
  omega

/-- The reply to a subscription is 57 bytes longer than the name and the provider. -/
theorem length_subscribeOkVec (service : String) (provider : Option String) :
    (subscribeOkVec ⟨service, provider, false⟩).length =
      (Json.escaped service).length + (Json.option Json.string provider).length + 57 := by
  have hservice : (Json.string "service").length = 9 := by decide
  have hprovider : (Json.string "provider_node_id").length = 18 := by decide
  have hrelay : (Json.string "relay_required").length = 16 := by decide
  have hfalse : (Json.bool false).length = 5 := by decide
  simp only [subscribeOkVec, Json.object, Json.fields, List.length_cons, List.length_append,
    List.length_nil, hservice, hprovider, hrelay, hfalse, Json.length_string]
  omega

/-! ## Replies -/

def isRequest : Frame → Bool
  | .hello _ => true
  | .register _ => true
  | .subscribe _ => true
  | _ => false

/-- The reply a session is writing. -/
def Phase.reply? : Phase → Option Frame
  | .rejecting => some unknownGroup
  | .replying _ reply _ => some reply
  | _ => none

/-- The frame has a payload, which is not too long. -/
def Fits (json : SerdeJson) (f : Frame) : Prop :=
  ∃ payload, Frame.encodePayload json f = .ok payload ∧ payload.length ≤ maxFramePayload

theorem fits_iff_writeTo {json : SerdeJson} {f : Frame} {w : Writer} (hw : w.Reliable) :
    Fits json f ↔ (Frame.writeTo json f w).1 = .ok () := by
  rw [Frame.writeTo_reliable json f hw]
  unfold Fits
  cases Frame.encodePayload json f with
  | error e => simp
  | ok payload =>
    by_cases hlen : payload.length > maxFramePayload
    · simp [hlen]
    · simp [hlen, Nat.not_lt.1 hlen]

/-- A `Subscribe` in group `g` leaves room for the rest of its reply. -/
def RoomFor (toStr : EndpointId → String) (st : ServerState) (g : String) : Frame → Prop
  | .subscribe sub =>
      (Json.escaped sub.service).length +
        (Json.option Json.string ((st.lookupService g sub.service).map toStr)).length + 57 ≤
          maxFramePayload
  | _ => True

section Replies

variable {json : SerdeJson} {toStr : EndpointId → String} {st : ServerState} {c c' : Conn}
  {f reply : Frame} {sid : UInt64} {now : Instant} {op : Op}

/-- What is replied to a request. -/
theorem reply_cases (hreq : isRequest f) (h : c.recv toStr st (.frame f) sid now = some (c', op))
    (hreply : c'.phase.reply? = some reply) :
    (reply = .helloOk ⟨sid⟩ ∧ ∀ sub, f ≠ .subscribe sub) ∨
    (∃ code reason, reply = .controlError code reason ∧ (utf8 reason).length ≤ 100 ∧
      ∀ sub, f ≠ .subscribe sub) ∨
    (∃ svc, reply = .registerOk ⟨svc⟩ ∧ (utf8 svc).length ≤ 32 ∧ ∀ sub, f ≠ .subscribe sub) ∨
    (∃ sub g, f = .subscribe sub ∧ c.phase = .ready g ∧
      reply = .subscribeOk ⟨sub.service, (st.lookupService g sub.service).map toStr, false⟩) := by
  unfold Conn.recv at h
  split at h
  case h_1 hphase =>
    obtain ⟨rfl, -⟩ := Prod.mk.inj (Option.some.inj h)
    cases f with
    | hello hello =>
      cases hauth : st.authenticate hello.groupToken with
      | some g =>
        simp only [hauth, Phase.reply?, Option.some.injEq] at hreply
        exact .inl ⟨hreply.symm, by simp⟩
      | none =>
        simp only [hauth, Phase.reply?, Option.some.injEq] at hreply
        exact .inr (.inl ⟨1, "unknown group", hreply.symm, by decide, by simp⟩)
    | register reg => cases hreply
    | subscribe sub => cases hreply
    | _ => cases hreq
  case h_2 g hphase =>
    obtain ⟨rfl, -⟩ := Prod.mk.inj (Option.some.inj h)
    cases f with
    | hello hello =>
      obtain rfl := Option.some.inj hreply
      exact .inr (.inl ⟨2, "Hello already received", rfl, by decide, by simp⟩)
    | register reg =>
      cases hreg : (st.groups g).registerService reg.service c.remote with
      | ok prev =>
        simp only [handleRegister, hreg, Phase.reply?, Option.some.injEq] at hreply
        exact .inr (.inr (.inl
          ⟨reg.service, hreply.symm, length_of_registerService hreg, by simp⟩))
      | error e =>
        cases e
        simp only [handleRegister, hreg, Phase.reply?, Option.some.injEq] at hreply
        exact .inr (.inl ⟨3, _, hreply.symm, by decide, by simp⟩)
    | subscribe sub =>
      refine .inr (.inr (.inr ⟨sub, g, rfl, hphase, ?_⟩))
      simp only [handleSubscribe] at hreply
      cases hlook : st.lookupService g sub.service with
      | some p =>
        simp only [hlook, Phase.reply?, Option.some.injEq] at hreply
        exact hreply.symm
      | none =>
        simp only [hlook, Phase.reply?, Option.some.injEq] at hreply
        exact hreply.symm
    | _ => cases hreq
  case h_3 => cases h

/-- A JSON text fits if it is not too long. -/
theorem writeJson_fits {T : Type} {codec : JsonCodec T} {v : T} {bytes : Bytes}
    (h : codec.toVec v = .ok bytes) :
    (∃ payload, writeJson codec v = .ok payload ∧ payload.length ≤ maxFramePayload) ↔
      bytes.length ≤ maxFramePayload := by
  have hmax : maxFramePayload < u16Max := by decide
  unfold writeJson
  rw [h]
  dsimp only
  split_ifs with hlen
  · constructor
    · intro hex
      obtain ⟨payload, herr, -⟩ := hex
      cases herr
    · intro hle
      omega
  · constructor
    · intro hex
      obtain ⟨payload, hok, hle⟩ := hex
      obtain rfl := Except.ok.inj hok
      exact hle
    · exact fun hle => ⟨bytes, rfl, hle⟩

/-- **When a reply fits.** Every reply to a `Hello` or a `Register` does; the reply to a
`Subscribe` does when there is room for it. A reply that does not fit cannot be written. -/
theorem reply_fits_iff (hjson : Compact json) (hreq : isRequest f)
    (h : c.recv toStr st (.frame f) sid now = some (c', op))
    (hreply : c'.phase.reply? = some reply) :
    (Fits json reply ↔ ∀ g, c.phase = .ready g → RoomFor toStr st g f) ∧
      ∀ w : Writer, w.Reliable → (Fits json reply ↔ (Frame.writeTo json reply w).1 = .ok ()) := by
  refine ⟨?_, fun w hw => fits_iff_writeTo hw⟩
  -- A reply to anything but a subscription fits, and nothing is asked of the request.
  have key : Fits json reply → (∀ sub, f ≠ .subscribe sub) →
      (Fits json reply ↔ ∀ g, c.phase = .ready g → RoomFor toStr st g f) := by
    intro hfits hf
    refine ⟨fun _ g _ => ?_, fun _ => hfits⟩
    cases f with
    | subscribe sub => exact absurd rfl (hf sub)
    | _ => trivial
  rcases reply_cases hreq h hreply with ⟨rfl, hf⟩ | ⟨code, reason, rfl, hlen, hf⟩ |
      ⟨svc, rfl, hlen, hf⟩ | ⟨sub, g, rfl, hphase, rfl⟩
  · refine key ((writeJson_fits (hjson.helloOk _)).2 ?_) hf
    exact (length_helloOkVec_le _).trans (by decide)
  · refine key ⟨_, rfl, ?_⟩ hf
    rw [List.length_append, length_putU16Le]
    have : 102 ≤ maxFramePayload := by decide
    omega
  · refine key ((writeJson_fits (hjson.registerOk _)).2 ?_) hf
    rw [length_registerOkVec]
    have hesc := Json.length_escaped_le svc
    have : 206 ≤ maxFramePayload := by decide
    show (Json.escaped svc).length + 14 ≤ maxFramePayload
    omega
  · refine (writeJson_fits (hjson.subscribeOk _)).trans ?_
    rw [length_subscribeOkVec]
    constructor
    · intro hle g' hg'
      obtain rfl : g = g' := by
        rw [hphase] at hg'
        cases hg'
        rfl
      exact hle
    · exact fun hroom => hroom g hphase

end Replies

/-! ## A name that just fits into the request -/

/-- `serde_json`, as far as a server whose client subscribes to `name` gets to see it. -/
def jsonFor (name : String) : SerdeJson where
  hello := ⟨fun _ => .error "not a reply", fun _ => .error "not a hello"⟩
  helloOk := ⟨fun h => .ok (helloOkVec h), fun _ => .error "not a request"⟩
  register := ⟨fun _ => .error "not a reply", fun _ => .error "not a registration"⟩
  registerOk := ⟨fun r => .ok (registerOkVec r), fun _ => .error "not a request"⟩
  subscribe := Frame.JsonCodec.single ⟨name⟩ (Json.object [("service", Json.string name)])
  subscribeOk := ⟨fun s => .ok (subscribeOkVec s), fun _ => .error "not a request"⟩

theorem compact_jsonFor (name : String) : Compact (jsonFor name) :=
  ⟨fun _ => rfl, fun _ => rfl, fun _ => rfl⟩

/-- A session in its main loop. -/
def readyConn : Conn := ⟨⟨.replicate 1⟩, .ready "home", []⟩

def homeState : ServerState := .new [⟨"home", "token"⟩] []

/-- The reply to a subscription of a name nobody has registered. -/
def notFound (name : String) : Frame := .subscribeOk ⟨name, none, false⟩

theorem recv_notFound (name : String) :
    readyConn.recv Iroh.hex.toStr homeState (.frame (.subscribe ⟨name⟩)) 0 0 =
      some ({ readyConn with phase := .replying "home" (notFound name) true }, .read) :=
  rfl

theorem reply_fits_web : Fits (jsonFor "web") (notFound "web") :=
  ((reply_fits_iff (compact_jsonFor "web") rfl (recv_notFound "web") rfl).1).2 fun g hg => by
    obtain rfl : "home" = g := by simpa [readyConn] using hg
    show (_ : ℕ) ≤ _
    decide

/-- A name of 32740 letters. -/
def longName : String := String.ofList (List.replicate 32740 'a')

theorem length_escaped_replicate (n : ℕ) :
    (Json.escaped (String.ofList (List.replicate n 'a'))).length = n := by
  rw [Json.escaped, utf8_ofList]
  induction n with
  | zero => rfl
  | succ n ih =>
    rw [List.replicate_succ, utf8Chars_cons, List.flatMap_append, List.length_append, ih,
      Nat.add_comm]
    rfl

/-- A name that fits into the request, but not into the reply. -/
theorem unanswered {name : String} (hname : (Json.escaped name).length = 32740) :
    Frame.readFrom (jsonFor name)
        ⟨Frame.frameBytes .controlSubscribe (Json.object [("service", Json.string name)]), none⟩ =
        .ok (.subscribe ⟨name⟩, ⟨[], none⟩) ∧
      ¬Fits (jsonFor name) (notFound name) ∧
      (Frame.writeTo (jsonFor name) (notFound name) ⟨[], none⟩).1 =
        .error (.tooLong 32801 32768) := by
  have hreply : (subscribeOkVec ⟨name, none, false⟩).length = 32801 := by
    have hnull : (Json.option Json.string none).length = 4 := by decide
    rw [length_subscribeOkVec, hname, hnull]
  have hencode : Frame.encodePayload (jsonFor name) (notFound name) =
      .ok (subscribeOkVec ⟨name, none, false⟩) := by
    show writeJson (jsonFor name).subscribeOk ⟨name, none, false⟩ = _
    simp [writeJson, jsonFor, hreply, u16Max]
  refine ⟨?_, fun hfits => ?_, ?_⟩
  · have hlen : (Json.object [("service", Json.string name)]).length ≤ maxFramePayload := by
      have hrequest : (Json.object [("service", Json.string name)]).length =
          (Json.escaped name).length + 14 := length_registerOkVec ⟨name⟩
      rw [hrequest, hname]
      decide
    have hdecode : Frame.decode (jsonFor name) Tag.controlSubscribe.byte
        (Json.object [("service", Json.string name)]) = .ok (.subscribe ⟨name⟩) := by
      have hparse : (jsonFor name).subscribe.fromSlice
          (Json.object [("service", Json.string name)]) = .ok ⟨name⟩ := if_pos rfl
      rw [Frame.decode_byte, Frame.decodeAs, readJson, hparse]
      rfl
    have hread := Frame.readFrom_frameBytes_of_decode hdecode hlen ⟨[], none⟩
    rwa [List.append_nil] at hread
  · obtain ⟨payload, henc, hle⟩ := hfits
    rw [hencode] at henc
    obtain rfl := Except.ok.inj henc
    rw [hreply] at hle
    exact absurd hle (by decide)
  · rw [Frame.writeTo_reliable _ _ (Writer.reliable_mk []), hencode]
    simp [hreply, maxFramePayload]

/-- The server reads the request, cannot write the reply, and the session ends. -/
theorem longName_ends_session :
    Frame.readFrom (jsonFor longName)
        ⟨Frame.frameBytes .controlSubscribe (Json.object [("service", Json.string longName)]),
          none⟩ = .ok (.subscribe ⟨longName⟩, ⟨[], none⟩) ∧
      readyConn.recv Iroh.hex.toStr homeState (.frame (.subscribe ⟨longName⟩)) 0 0 =
        some ({ readyConn with phase := .replying "home" (notFound longName) true }, .read) ∧
      ¬Fits (jsonFor longName) (notFound longName) ∧
      (Frame.writeTo (jsonFor longName) (notFound longName) ⟨[], none⟩).1 =
        .error (.tooLong 32801 32768) ∧
      (Conn.wrote false { readyConn with phase := .replying "home" (notFound longName) true }).map
        Conn.phase = some (.ended (some "home") (.error .writeFrame)) := by
  obtain ⟨hread, hfits, hwrite⟩ := unanswered (length_escaped_replicate 32740)
  exact ⟨hread, recv_notFound longName, hfits, hwrite, rfl⟩

end MeshlyCore.Control
