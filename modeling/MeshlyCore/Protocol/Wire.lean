import MeshlyCore.Protocol.Decode

/-!
# Frames on a byte stream

`write_to` and `read_from` over explicit streams, and their round trip: whatever sequence of
frames was written, reading as many frames gives the same sequence back and leaves the bytes
after it alone.

Two lengths bound a frame. Inside the payload each string of `DataOpen`, and each JSON text, is
held to `u16::MAX`; the whole payload is held to 32 KiB. The header's two length bytes cover
both, which is all the round trip needs.
-/

namespace MeshlyCore.Protocol

open Outcome

/-! ## Streams -/

/-- The writing end of a stream: what went out, and, if the stream breaks, after how many more
bytes and with which error. -/
structure Writer where
  out : Bytes
  fault : Option (Nat × String) := none
  deriving DecidableEq, Repr

/-- A stream that never breaks. -/
def Writer.Reliable (w : Writer) : Prop := w.fault = none

@[simp] theorem Writer.reliable_mk (out : Bytes) : Writer.Reliable ⟨out, none⟩ := rfl

/-- `write_all`: on a broken stream, what still fits is written before the error. -/
def Writer.writeAll (w : Writer) (b : Bytes) : Except String Unit × Writer :=
  match w.fault with
  | none => (.ok (), { w with out := w.out ++ b })
  | some (room, e) =>
      if b.length ≤ room then (.ok (), ⟨w.out ++ b, some (room - b.length, e)⟩)
      else (.error e, ⟨w.out ++ b.take room, some (0, e)⟩)

/-- The reading end of a stream: what is still to come, and whether it then ends or breaks. -/
structure Reader where
  bytes : Bytes
  fault : Option String := none
  deriving DecidableEq, Repr

/-- `read_exact`. `none` is `ErrorKind::UnexpectedEof`. -/
def Reader.readExact (r : Reader) (n : Nat) : Except (Option String) (Bytes × Reader) :=
  if n ≤ r.bytes.length then .ok (r.bytes.take n, { r with bytes := r.bytes.drop n })
  else .error r.fault

namespace Frame

/-- Write a frame (tag, length, payload). -/
def writeTo (json : SerdeJson) (f : Frame) (w : Writer) : Except FrameError Unit × Writer :=
  match encodePayload json f with
  | .error e => (.error e, w)
  | .ok payload =>
      if payload.length > maxFramePayload then
        (.error (.tooLong payload.length maxFramePayload), w)
      else
        let head := [f.tag.byte, UInt8.ofNat (payload.length &&& 0xff),
          UInt8.ofNat ((payload.length >>> 8) &&& 0xff)]
        match w.writeAll head with
        | (.error e, w) => (.error (.io e), w)
        | (.ok (), w) =>
            if payload = [] then (.ok (), w)
            else
              match w.writeAll payload with
              | (.error e, w) => (.error (.io e), w)
              | (.ok (), w) => (.ok (), w)

/-- Read a frame (tag, length, payload). -/
def readFrom (json : SerdeJson) (r : Reader) : Outcome FrameError (Frame × Reader) :=
  match r.readExact 3 with
  | .error none => .err .shortHeader
  | .error (some e) => .err (.io e)
  | .ok (head, r) => do
      let tag ← index head 0
      let len ← readU16 head 1
      if len > maxFramePayload then .err (.tooLong len maxFramePayload) else
      if len > 0 then
        match r.readExact len with
        | .error none => .err (.shortPayload len 0)
        | .error (some e) => .err (.io e)
        | .ok (payload, r) => do .ok (← decode json tag payload, r)
      else do .ok (← decode json tag [], r)

/-- Write frames one after the other, until one fails. -/
def writeFrames (json : SerdeJson) : List Frame → Writer → Except FrameError Unit × Writer
  | [], w => (.ok (), w)
  | f :: fs, w =>
      match writeTo json f w with
      | (.error e, w) => (.error e, w)
      | (.ok (), w) => writeFrames json fs w

/-- Call `read_from` `n` times. -/
def readFrames (json : SerdeJson) : Nat → Reader → Outcome FrameError (List Frame × Reader)
  | 0, r => .ok ([], r)
  | n + 1, r => do
      let (f, r) ← readFrom json r
      let (fs, r) ← readFrames json n r
      .ok (f :: fs, r)

/-! ## What `write_to` writes -/

/-- The bytes of a frame with payload `payload`. -/
def frameBytes (t : Tag) (payload : Bytes) : Bytes :=
  [t.byte] ++ putU16Le payload.length ++ payload

theorem header_eq (t : Tag) {n : Nat} :
    [t.byte, UInt8.ofNat (n &&& 0xff), UInt8.ofNat ((n >>> 8) &&& 0xff)] =
      [t.byte] ++ putU16Le n := by
  have hlow (m : Nat) : UInt8.ofNat (m &&& 0xff) = UInt8.ofNat m := by
    apply UInt8.toNat_inj.1
    rw [UInt8.toNat_ofNat', UInt8.toNat_ofNat', show (0xff : Nat) = 2 ^ 8 - 1 from rfl,
      Nat.and_two_pow_sub_one_eq_mod]
    omega
  rw [hlow, hlow]
  rfl

/-- On a reliable stream, `write_to` writes the whole frame or, when the payload cannot be
encoded or is too long, nothing. -/
theorem writeTo_reliable (json : SerdeJson) (f : Frame) {w : Writer} (hw : w.Reliable) :
    writeTo json f w =
      match encodePayload json f with
      | .error e => (.error e, w)
      | .ok payload =>
          if payload.length > maxFramePayload then
            (.error (.tooLong payload.length maxFramePayload), w)
          else (.ok (), { w with out := w.out ++ frameBytes f.tag payload }) := by
  obtain ⟨out, fault⟩ := w
  obtain rfl : fault = none := hw
  unfold writeTo
  cases encodePayload json f with
  | error e => rfl
  | ok payload =>
    dsimp only
    by_cases hlen : payload.length > maxFramePayload
    · rw [if_pos hlen, if_pos hlen]
    · rw [if_neg hlen, if_neg hlen, header_eq]
      by_cases hp : payload = [] <;> simp [Writer.writeAll, frameBytes, hp]

theorem writeTo_eq_ok {json : SerdeJson} {f : Frame} {w w' : Writer} (hw : w.Reliable)
    (h : writeTo json f w = (.ok (), w')) :
    ∃ payload, encodePayload json f = .ok payload ∧ payload.length ≤ maxFramePayload ∧
      w' = { w with out := w.out ++ frameBytes f.tag payload } := by
  rw [writeTo_reliable json f hw] at h
  cases he : encodePayload json f with
  | error e => simp [he] at h
  | ok payload =>
    simp only [he] at h
    split_ifs at h with hlen
    · simp at h
    · exact ⟨payload, rfl, by omega, by simpa using h.symm⟩

/-- `write_to` fails on a reliable stream exactly when the payload cannot be encoded or is too
long. -/
def Unwritable (json : SerdeJson) (f : Frame) : Prop :=
  (∃ e, encodePayload json f = .error e) ∨
    ∃ payload, encodePayload json f = .ok payload ∧ maxFramePayload < payload.length

theorem writeTo_error_iff {json : SerdeJson} {f : Frame} {w : Writer} (hw : w.Reliable) :
    (∃ e, (writeTo json f w).1 = .error e) ↔ Unwritable json f := by
  rw [writeTo_reliable json f hw]
  unfold Unwritable
  cases he : encodePayload json f with
  | error e => simp
  | ok payload =>
    by_cases hlen : payload.length > maxFramePayload
    · simp [hlen]
    · simp [hlen]

theorem writeTo_error_out {json : SerdeJson} {f : Frame} {w : Writer} (hw : w.Reliable)
    {e : FrameError} (h : (writeTo json f w).1 = .error e) : (writeTo json f w).2 = w := by
  rw [writeTo_reliable json f hw] at h ⊢
  cases he : encodePayload json f with
  | error e => rfl
  | ok payload =>
    simp only [he] at h ⊢
    split_ifs at h ⊢ with hlen
    rfl

/-! ## Decoding an encoded payload -/

/-- `from_slice` undoes `to_vec`. -/
def JsonCodec.RoundTrips {T : Type} (json : JsonCodec T) : Prop :=
  ∀ v b, json.toVec v = .ok b → json.fromSlice b = .ok v

/-- `from_slice` undoes `to_vec` on each of the six structs. -/
structure SerdeJson.RoundTrips (json : SerdeJson) : Prop where
  hello : JsonCodec.RoundTrips json.hello
  helloOk : JsonCodec.RoundTrips json.helloOk
  register : JsonCodec.RoundTrips json.register
  registerOk : JsonCodec.RoundTrips json.registerOk
  subscribe : JsonCodec.RoundTrips json.subscribe
  subscribeOk : JsonCodec.RoundTrips json.subscribeOk

theorem readJson_writeJson {T : Type} {json : JsonCodec T} (hj : JsonCodec.RoundTrips json)
    {v : T} {b : Bytes} (h : writeJson json v = .ok b) : readJson json b = .ok v := by
  unfold writeJson at h
  cases hv : json.toVec v with
  | error e => simp [hv] at h
  | ok bytes =>
    simp only [hv] at h
    split_ifs at h
    obtain rfl := Except.ok.inj h
    rw [readJson, hj v bytes hv]

@[simp] theorem stringFromUtf8_utf8 (s : String) : stringFromUtf8 (utf8 s) = .ok s := by
  rw [stringFromUtf8, fromUtf8_utf8]

theorem readU16_append (xs ys : Bytes) {l : Bytes} {i n : Nat} (hl : l = xs ++ putU16Le n ++ ys)
    (hi : i = xs.length) (hn : n ≤ u16Max) : readU16 l i = .ok n := by
  subst hl hi
  have h0 : index (xs ++ putU16Le n ++ ys) xs.length =
      (.ok (UInt8.ofNat n) : Outcome FrameError UInt8) := by
    rw [index_eq_ok]
    simp [putU16Le]
  have h1 : index (xs ++ putU16Le n ++ ys) (xs.length + 1) =
      (.ok (UInt8.ofNat (n >>> 8)) : Outcome FrameError UInt8) := by
    rw [index_eq_ok]
    simp [putU16Le]
  rw [readU16, h0, ok_bind, h1, ok_bind, u16FromLe_putU16Le]
  unfold u16Max at hn
  omega

theorem putPrefixed_eq_ok {s : String} {b : Bytes} (h : putPrefixed s = .ok b) :
    (utf8 s).length ≤ u16Max ∧ b = putU16Le (utf8 s).length ++ utf8 s := by
  unfold putPrefixed at h
  split_ifs at h with hlen
  exact ⟨by omega, (Except.ok.inj h).symm⟩

/-- The three strings and the proof of `DataOpen`, read back at the offsets their lengths
give. -/
theorem decodeDataOpen_encode {svc provider consumer : String} {proof : Bytes32}
    (hs : (utf8 svc).length ≤ u16Max) (hp : (utf8 provider).length ≤ u16Max)
    (hc : (utf8 consumer).length ≤ u16Max) :
    decodeDataOpen (putU16Le (utf8 svc).length ++ utf8 svc ++
      (putU16Le (utf8 provider).length ++ utf8 provider) ++
      (putU16Le (utf8 consumer).length ++ utf8 consumer) ++ proof.val) =
      .ok (dataOpen svc provider consumer proof) := by
  generalize hS : utf8 svc = S at *
  generalize hP : utf8 provider = P at *
  generalize hC : utf8 consumer = C at *
  generalize hl : putU16Le S.length ++ S ++ (putU16Le P.length ++ P) ++
    (putU16Le C.length ++ C) ++ proof.val = l
  have hlen : l.length = 2 + S.length + (2 + P.length) + (2 + C.length) + 32 := by
    rw [← hl]
    simp [proof.property]
    omega
  have hsvc : readU16 l 0 = .ok S.length :=
    readU16_append [] (S ++ (putU16Le P.length ++ P) ++
      (putU16Le C.length ++ C) ++ proof.val) (by rw [← hl]; simp) rfl hs
  have hprov : readU16 l (2 + S.length) = .ok P.length :=
    readU16_append (putU16Le S.length ++ S) (P ++ (putU16Le C.length ++ C) ++ proof.val)
      (by rw [← hl]; simp) (by simp) hp
  have hcons : readU16 l (2 + S.length + 2 + P.length) = .ok C.length :=
    readU16_append (putU16Le S.length ++ S ++ (putU16Le P.length ++ P)) (C ++ proof.val)
      (by rw [← hl]; simp) (by simp; omega) hc
  have hsS : slice l 2 (2 + S.length) = (.ok S : Outcome FrameError Bytes) :=
    slice_append (putU16Le S.length) (putU16Le P.length ++ P ++
      (putU16Le C.length ++ C) ++ proof.val) (by rw [← hl]; simp) (by simp) (by simp)
  have hsP : slice l (2 + S.length + 2) (2 + S.length + 2 + P.length) =
      (.ok P : Outcome FrameError Bytes) :=
    slice_append (putU16Le S.length ++ S ++ putU16Le P.length)
      (putU16Le C.length ++ C ++ proof.val) (by rw [← hl]; simp) (by simp; omega)
      (by simp; omega)
  have hsC : slice l (2 + S.length + 2 + P.length + 2)
      (2 + S.length + 2 + P.length + 2 + C.length) = (.ok C : Outcome FrameError Bytes) :=
    slice_append (putU16Le S.length ++ S ++ (putU16Le P.length ++ P) ++ putU16Le C.length)
      (proof.val) (by rw [← hl]; simp) (by simp; omega) (by simp; omega)
  have hsX : slice l (2 + S.length + 2 + P.length + 2 + C.length)
      (2 + S.length + 2 + P.length + 2 + C.length + 32) =
      (.ok proof.val : Outcome FrameError Bytes) :=
    slice_append (putU16Le S.length ++ S ++ (putU16Le P.length ++ P) ++
      (putU16Le C.length ++ C)) [] (by rw [← hl]; simp) (by simp; omega)
      (by simp [proof.property]; omega)
  have hfS : stringFromUtf8 S = .ok svc := by rw [← hS, stringFromUtf8_utf8]
  have hfP : stringFromUtf8 P = .ok provider := by rw [← hP, stringFromUtf8_utf8]
  have hfC : stringFromUtf8 C = .ok consumer := by rw [← hC, stringFromUtf8_utf8]
  unfold decodeDataOpen
  rw [if_neg (by omega), hsvc, ok_bind]
  dsimp only
  rw [if_neg (by omega), hsS, ok_bind, hfS, ok_bind, hprov, ok_bind, hsP, ok_bind, hfP, ok_bind,
    hcons, ok_bind, if_neg (by omega), hsC, ok_bind, hfC, ok_bind, hsX, ok_bind,
    Bytes32.ofBytes?_val]

theorem decodeDataOpen_encodePayload {json : SerdeJson} {svc provider consumer : String}
    {proof : Bytes32} {payload : Bytes}
    (h : encodePayload json (dataOpen svc provider consumer proof) = .ok payload) :
    decodeDataOpen payload = .ok (dataOpen svc provider consumer proof) := by
  simp only [encodePayload, bind, Except.bind] at h
  split at h
  · cases h
  · next hs =>
    split at h
    · cases h
    · next hp =>
      split at h
      · cases h
      · next hc =>
        obtain ⟨hsl, rfl⟩ := putPrefixed_eq_ok hs
        obtain ⟨hpl, rfl⟩ := putPrefixed_eq_ok hp
        obtain ⟨hcl, rfl⟩ := putPrefixed_eq_ok hc
        obtain rfl := Except.ok.inj h
        exact decodeDataOpen_encode hsl hpl hcl

/-- **Decoding undoes encoding**, under the frame's own tag. -/
theorem decodeAs_encodePayload {json : SerdeJson} (hj : SerdeJson.RoundTrips json) {f : Frame}
    {payload : Bytes} (h : encodePayload json f = .ok payload) :
    decodeAs json payload f.tag = .ok f := by
  cases f with
  | authHello | authOk | heartbeat =>
    obtain rfl := Except.ok.inj h
    rfl
  | authNonce nonce =>
    obtain rfl := Except.ok.inj h
    simp [decodeAs, tag]
  | authProof mac =>
    obtain rfl := Except.ok.inj h
    simp [decodeAs, tag]
  | authErr code reason =>
    obtain rfl := Except.ok.inj h
    have hs : slice (code :: utf8 reason) 1 (code :: utf8 reason).length =
        (.ok (utf8 reason) : Outcome FrameError Bytes) :=
      slice_append [code] [] (by simp) rfl (by simp; omega)
    rw [tag, decodeAs, if_neg (by simp), index_of_lt (by simp), ok_bind, hs, ok_bind,
      stringFromUtf8_utf8]
    rfl
  | dataOpen svc provider consumer proof =>
    exact decodeDataOpen_encodePayload h
  | hello v => rw [tag, decodeAs, readJson_writeJson hj.hello h, ok_bind]
  | helloOk v => rw [tag, decodeAs, readJson_writeJson hj.helloOk h, ok_bind]
  | register v => rw [tag, decodeAs, readJson_writeJson hj.register h, ok_bind]
  | registerOk v => rw [tag, decodeAs, readJson_writeJson hj.registerOk h, ok_bind]
  | subscribe v => rw [tag, decodeAs, readJson_writeJson hj.subscribe h, ok_bind]
  | subscribeOk v => rw [tag, decodeAs, readJson_writeJson hj.subscribeOk h, ok_bind]
  | controlError code reason =>
    obtain rfl := Except.ok.inj h
    have hcode : code.toNat ≤ u16Max := Nat.le_of_lt_succ code.toNat_lt
    have hs : slice (putU16Le code.toNat ++ utf8 reason) 2
        (putU16Le code.toNat ++ utf8 reason).length =
        (.ok (utf8 reason) : Outcome FrameError Bytes) :=
      slice_append (putU16Le code.toNat) [] (by simp) rfl (by simp)
    have hlen : ¬ (putU16Le code.toNat ++ utf8 reason).length < 2 := by
      rw [List.length_append, length_putU16Le]
      omega
    have hread : readU16 (putU16Le code.toNat ++ utf8 reason) 0 = .ok code.toNat :=
      readU16_append [] (utf8 reason) rfl rfl hcode
    rw [tag, decodeAs, if_neg hlen, hread, ok_bind, hs, ok_bind,
      stringFromUtf8_utf8, ok_bind, UInt16.ofNat_toNat]

/-! ## The round trip -/

theorem readFrom_frameBytes_of_decode {json : SerdeJson} {t : Tag} {f : Frame} {payload : Bytes}
    (hdecode : decode json t.byte payload = .ok f) (hlen : payload.length ≤ maxFramePayload)
    (r : Reader) :
    readFrom json { r with bytes := frameBytes t payload ++ r.bytes } = .ok (f, r) := by
  have hlen16 : payload.length ≤ u16Max := hlen.trans (by decide)
  have hhead : ({ r with bytes := frameBytes t payload ++ r.bytes } : Reader).readExact 3 =
      .ok ([t.byte] ++ putU16Le payload.length, { r with bytes := payload ++ r.bytes }) := by
    rw [Reader.readExact, if_pos (by simp [frameBytes])]
    simp [frameBytes, putU16Le]
  have htag : index ([t.byte] ++ putU16Le payload.length) 0 =
      (.ok t.byte : Outcome FrameError UInt8) := rfl
  have hsize : readU16 ([t.byte] ++ putU16Le payload.length) 1 = .ok payload.length :=
    readU16_append [t.byte] [] (by simp) rfl hlen16
  unfold readFrom
  rw [hhead]
  dsimp only
  rw [htag, ok_bind, hsize, ok_bind, if_neg (by omega)]
  by_cases hp : payload = []
  · subst hp
    rw [if_neg (by simp), hdecode]
    rfl
  · have hbody : ({ r with bytes := payload ++ r.bytes } : Reader).readExact payload.length =
        .ok (payload, r) := by
      rw [Reader.readExact, if_pos (by simp)]
      simp
    rw [if_pos (List.length_pos_iff.2 hp), hbody]
    dsimp only
    rw [hdecode]
    rfl

theorem readFrom_frameBytes {json : SerdeJson} (hj : SerdeJson.RoundTrips json) {f : Frame}
    {payload : Bytes} (h : encodePayload json f = .ok payload)
    (hlen : payload.length ≤ maxFramePayload) (r : Reader) :
    readFrom json { r with bytes := frameBytes f.tag payload ++ r.bytes } = .ok (f, r) := by
  refine readFrom_frameBytes_of_decode ?_ hlen r
  rw [decode_byte, decodeAs_encodePayload hj h]

/-- Reading over what a run of writes put on the stream. The induction follows the frames; the
writer's earlier output stays in front, the unread rest behind. -/
theorem readFrames_writeFrames {json : SerdeJson} (hj : SerdeJson.RoundTrips json)
    (fs : List Frame) {w w' : Writer} (hw : w.Reliable)
    (h : writeFrames json fs w = (.ok (), w')) (r : Reader) :
    ∃ written, w'.out = w.out ++ written ∧
      readFrames json fs.length { r with bytes := written ++ r.bytes } = .ok (fs, r) := by
  induction fs generalizing w with
  | nil =>
    obtain rfl : w = w' := by simpa [writeFrames] using h
    exact ⟨[], by simp, rfl⟩
  | cons f fs ih =>
    rw [writeFrames] at h
    cases hf : writeTo json f w with
    | mk res w₁ =>
      cases res with
      | error e => simp [hf] at h
      | ok u =>
        rw [hf] at h
        obtain ⟨payload, henc, hlen, rfl⟩ := writeTo_eq_ok hw hf
        have hw₁ : Writer.Reliable { w with out := w.out ++ frameBytes f.tag payload } := hw
        obtain ⟨written, hout, hread⟩ := ih hw₁ h
        refine ⟨frameBytes f.tag payload ++ written, ?_, ?_⟩
        · rw [hout, List.append_assoc]
        · rw [List.length_cons, readFrames, List.append_assoc]
          have hfirst := readFrom_frameBytes hj henc hlen
            { r with bytes := written ++ r.bytes }
          dsimp only at hfirst
          rw [hfirst, ok_bind]
          dsimp only
          rw [hread, ok_bind]

/-- **Frames survive the wire.** On reliable streams, reading once per written frame returns
the frames and leaves the bytes behind them; and `write_to` fails exactly on a payload that
cannot be encoded or is too long, without writing a byte. -/
theorem readFrames_of_written (json : SerdeJson) (hj : SerdeJson.RoundTrips json) :
    (∀ (fs : List Frame) (w : Writer) (rest : Bytes),
      writeFrames json fs ⟨[], none⟩ = (.ok (), w) →
      readFrames json fs.length ⟨w.out ++ rest, none⟩ = .ok (fs, ⟨rest, none⟩)) ∧
    ∀ (f : Frame) (out : Bytes),
      ((∃ e, (writeTo json f ⟨out, none⟩).1 = .error e) ↔ Unwritable json f) ∧
      ((∃ e, (writeTo json f ⟨out, none⟩).1 = .error e) →
        (writeTo json f ⟨out, none⟩).2.out = out) := by
  refine ⟨fun fs w rest h => ?_, fun f out => ⟨writeTo_error_iff (Writer.reliable_mk _), ?_⟩⟩
  · obtain ⟨written, hout, hread⟩ := readFrames_writeFrames hj fs (Writer.reliable_mk _) h
      ⟨rest, none⟩
    rw [hout]
    exact hread
  · intro herr
    obtain ⟨e, he⟩ := herr
    rw [writeTo_error_out (Writer.reliable_mk _) he]

/-- `serde_json` on a single value and its compact text. -/
def JsonCodec.single {T : Type} [DecidableEq T] (v : T) (text : Bytes) : JsonCodec T where
  toVec u := if u = v then .ok text else .error "not the value"
  fromSlice b := if b = text then .ok v else .error "not the text"

theorem JsonCodec.single_roundTrips {T : Type} [DecidableEq T] (v : T) (text : Bytes) :
    JsonCodec.RoundTrips (JsonCodec.single v text) := by
  intro u b h
  unfold JsonCodec.single at h ⊢
  dsimp only at h ⊢
  split_ifs at h with hu
  obtain rfl := Except.ok.inj h
  rw [if_pos rfl, hu]

/-- The compact JSON of one value of each struct. -/
def sampleJson : SerdeJson where
  hello := JsonCodec.single ⟨"tkn", "c/0.1"⟩
    (utf8 "\x7b\"group_token\":\"tkn\",\"client_info\":\"c/0.1\"\x7d")
  helloOk := JsonCodec.single ⟨42⟩ (utf8 "\x7b\"session_id\":42\x7d")
  register := JsonCodec.single ⟨"ssh"⟩ (utf8 "\x7b\"service\":\"ssh\"\x7d")
  registerOk := JsonCodec.single ⟨"ssh"⟩ (utf8 "\x7b\"service\":\"ssh\"\x7d")
  subscribe := JsonCodec.single ⟨"web"⟩ (utf8 "\x7b\"service\":\"web\"\x7d")
  subscribeOk := JsonCodec.single ⟨"web", none, false⟩
    (utf8 "\x7b\"service\":\"web\",\"provider_node_id\":null,\"relay_required\":false\x7d")

theorem sampleJson_roundTrips : SerdeJson.RoundTrips sampleJson where
  hello := JsonCodec.single_roundTrips _ _
  helloOk := JsonCodec.single_roundTrips _ _
  register := JsonCodec.single_roundTrips _ _
  registerOk := JsonCodec.single_roundTrips _ _
  subscribe := JsonCodec.single_roundTrips _ _
  subscribeOk := JsonCodec.single_roundTrips _ _

/-- Frames of each payload shape. -/
def sampleFrames : List Frame :=
  [authHello, authNonce (Bytes32.replicate 1), authErr 1 "bad proof",
    dataOpen "ssh" "abcd1234" "consumer" (Bytes32.replicate 3), hello ⟨"tkn", "c/0.1"⟩,
    controlError 7 "boom"]

/-- One frame of each payload shape, written and read back with two bytes behind them. -/
theorem readFrames_sampleFrames :
    (writeFrames sampleJson sampleFrames ⟨[], none⟩).1 = .ok () ∧
      readFrames sampleJson 6 ⟨(writeFrames sampleJson sampleFrames ⟨[], none⟩).2.out ++ [9, 9],
        none⟩ = .ok (sampleFrames, ⟨[9, 9], none⟩) := by
  have hok : (writeFrames sampleJson sampleFrames ⟨[], none⟩).1 = .ok () := by decide
  exact ⟨hok, (readFrames_of_written sampleJson sampleJson_roundTrips).1 sampleFrames _ [9, 9]
    (Prod.ext hok rfl)⟩

end Frame

end MeshlyCore.Protocol
