import MeshlyCore.Protocol.Frame

/-!
# When decoding panics

Every frame read on every ALPN goes through `Frame.decode`, before any authentication. Thirteen
of its fourteen arms return `Ok` or `Err` on every payload. The `DATA_OPEN` arm does not: its
first length check leaves no room for the provider, whose length it has not read yet, and the
check that covers the provider comes after the provider has been sliced out.

`DataOpenOverruns` is the exact set of payloads that reach past the end: long enough for the
service and the fixed scaffolding, with a readable service, and with a provider that ends past
the payload (or so close to its end that the consumer's two length bytes do).
-/

namespace MeshlyCore.Protocol.Frame

open Outcome

/-! ## The embedded lengths -/

/-- The little-endian `u16` at offset `i`. -/
def lenAt (payload : Bytes) (i : Nat) : Nat :=
  u16FromLe (payload.getD i 0) (payload.getD (i + 1) 0)

/-- The service bytes a `DATA_OPEN` payload announces. -/
def serviceBytes (payload : Bytes) : Bytes := (payload.drop 2).take (lenAt payload 0)

/-- Where the provider string starts. -/
def providerStart (payload : Bytes) : Nat := 2 + lenAt payload 0 + 2

/-- Where the provider string ends, as announced. -/
def providerEnd (payload : Bytes) : Nat :=
  providerStart payload + lenAt payload (2 + lenAt payload 0)

/-- The provider bytes a `DATA_OPEN` payload announces. -/
def providerBytes (payload : Bytes) : Bytes :=
  (payload.drop (providerStart payload)).take (providerEnd payload - providerStart payload)

/-- The payload passes the checks made before the provider is sliced out, and its provider or
the two bytes after it lie past the end. -/
def DataOpenOverruns (payload : Bytes) : Prop :=
  2 + lenAt payload 0 + 2 + 2 + 32 ≤ payload.length ∧
    (fromUtf8 (serviceBytes payload)).isSome ∧
    (payload.length < providerEnd payload ∨
      (fromUtf8 (providerBytes payload)).isSome ∧ payload.length < providerEnd payload + 2)

instance (payload : Bytes) : Decidable (DataOpenOverruns payload) :=
  inferInstanceAs (Decidable (_ ∧ _ ∧ (_ ∨ _ ∧ _)))

theorem readU16_of_lt {payload : Bytes} {i : Nat} (h : i + 1 < payload.length) :
    readU16 payload i = .ok (lenAt payload i) := by
  have hi : i < payload.length := by omega
  rw [readU16, index_of_lt hi, ok_bind, index_of_lt h, ok_bind, lenAt,
    List.getD_eq_getElem _ _ hi, List.getD_eq_getElem _ _ h]

theorem readU16_of_le {payload : Bytes} {i : Nat} (h : payload.length ≤ i + 1) :
    readU16 payload i = .panic := by
  rw [readU16]
  by_cases hi : i < payload.length
  · rw [index_of_lt hi, ok_bind, index_eq_panic.2 h, panic_bind]
  · rw [index_eq_panic.2 (by omega), panic_bind]

theorem stringFromUtf8_of_isSome {b : Bytes} (h : (fromUtf8 b).isSome) :
    ∃ s, stringFromUtf8 b = .ok s := by
  obtain ⟨s, hs⟩ := Option.isSome_iff_exists.1 h
  exact ⟨s, by rw [stringFromUtf8, hs]⟩

theorem stringFromUtf8_of_not_isSome {b : Bytes} (h : ¬ (fromUtf8 b).isSome) :
    stringFromUtf8 b = .err (.utf8 b) := by
  have hn : fromUtf8 b = none := by simpa using h
  rw [stringFromUtf8, hn]

theorem stringFromUtf8_ne_panic (b : Bytes) : stringFromUtf8 b ≠ .panic := by
  unfold stringFromUtf8
  cases fromUtf8 b <;> simp

theorem readJson_ne_panic {T : Type} (json : JsonCodec T) (cur : Bytes) :
    readJson json cur ≠ .panic := by
  unfold readJson
  cases json.fromSlice cur <;> simp

/-! ## The three stages of `DATA_OPEN` -/

/-- The stage after the provider: consumer and proof. -/
def decodeConsumer (payload : Bytes) (svc provider : String) (provEnd : Nat) :
    Outcome FrameError Frame := do
  let consLen ← readU16 payload provEnd
  let consStart := provEnd + 2
  let consEnd := consStart + consLen
  let needWithCons := consEnd + 32
  if payload.length < needWithCons then .err (.shortPayload needWithCons payload.length) else
  let consumer ← stringFromUtf8 (← slice payload consStart consEnd)
  match Bytes32.ofBytes? (← slice payload consEnd (consEnd + 32)) with
  | some proof => .ok (dataOpen svc provider consumer proof)
  | none => .panic

/-- The stage after the service: the provider, then `decodeConsumer`. -/
def decodeProvider (payload : Bytes) (svc : String) (svcLen : Nat) : Outcome FrameError Frame := do
  let provLen ← readU16 payload (2 + svcLen)
  let provStart := 2 + svcLen + 2
  let provider ← stringFromUtf8 (← slice payload provStart (provStart + provLen))
  decodeConsumer payload svc provider (provStart + provLen)

theorem decodeDataOpen_eq (payload : Bytes) :
    decodeDataOpen payload = (do
      if payload.length < 2 then .err (.shortPayload 2 payload.length) else
      let svcLen ← readU16 payload 0
      let needMin := 2 + svcLen + 2 + 2 + 32
      if payload.length < needMin then .err (.shortPayload needMin payload.length) else
      let svc ← stringFromUtf8 (← slice payload 2 (2 + svcLen))
      decodeProvider payload svc svcLen) := rfl

/-- A proof of 32 bytes that lies inside the payload is read whole. -/
theorem ofBytes?_slice (payload : Bytes) (i : Nat) (h : i + 32 ≤ payload.length) :
    ∃ proof, Bytes32.ofBytes? ((payload.drop i).take (i + 32 - i)) = some proof := by
  have hlen : ((payload.drop i).take (i + 32 - i)).length = 32 := by
    simp only [List.length_take, List.length_drop]
    omega
  exact ⟨⟨_, hlen⟩, dif_pos hlen⟩

/-- The last stage panics exactly when the consumer's length bytes are missing. -/
theorem decodeConsumer_eq_panic {payload : Bytes} {svc provider : String} {provEnd : Nat} :
    decodeConsumer payload svc provider provEnd = .panic ↔ payload.length < provEnd + 2 := by
  by_cases h : provEnd + 1 < payload.length
  · refine iff_of_false ?_ (by omega)
    rw [decodeConsumer, readU16_of_lt h, ok_bind]
    by_cases hneed : payload.length < provEnd + 2 + lenAt payload provEnd + 32
    · simp [hneed]
    · rw [if_neg hneed, slice_of_le (by omega) (by omega), ok_bind]
      intro hp
      rcases bind_eq_panic.1 hp with hs | ⟨s, -, hs⟩
      · exact stringFromUtf8_ne_panic _ hs
      · obtain ⟨proof, hproof⟩ := ofBytes?_slice payload
          (provEnd + 2 + lenAt payload provEnd) (by omega)
        rw [slice_of_le (by omega) (by omega), ok_bind, hproof] at hs
        cases hs
  · refine iff_of_true ?_ (by omega)
    rw [decodeConsumer, readU16_of_le (by omega), panic_bind]

/-- The middle stage, entered with room for the scaffolding, panics when the provider overruns
the payload or leaves no room for the consumer's length. -/
theorem decodeProvider_eq_panic {payload : Bytes} {svc : String}
    (hmin : 2 + lenAt payload 0 + 2 + 2 + 32 ≤ payload.length) :
    decodeProvider payload svc (lenAt payload 0) = .panic ↔
      payload.length < providerEnd payload ∨
        (fromUtf8 (providerBytes payload)).isSome ∧ payload.length < providerEnd payload + 2 := by
  have hend : providerEnd payload =
      2 + lenAt payload 0 + 2 + lenAt payload (2 + lenAt payload 0) := rfl
  rw [decodeProvider, readU16_of_lt (by omega), ok_bind]
  dsimp only
  by_cases hover : payload.length < providerEnd payload
  · rw [slice_of_lt (by omega), panic_bind]
    exact iff_of_true rfl (.inl hover)
  · rw [slice_of_le (by omega) (by omega), ok_bind]
    show (stringFromUtf8 (providerBytes payload) >>= _) = _ ↔ _
    by_cases hutf : (fromUtf8 (providerBytes payload)).isSome
    · obtain ⟨provider, hp⟩ := stringFromUtf8_of_isSome hutf
      rw [hp, ok_bind, decodeConsumer_eq_panic, ← hend]
      simp [hover, hutf]
    · rw [stringFromUtf8_of_not_isSome hutf, err_bind]
      simp [hover, hutf]

theorem decodeDataOpen_eq_panic {payload : Bytes} :
    decodeDataOpen payload = .panic ↔ DataOpenOverruns payload := by
  rw [decodeDataOpen_eq]
  by_cases h2 : payload.length < 2
  · rw [if_pos h2]
    exact iff_of_false (by simp) fun h => by have := h.1; omega
  rw [if_neg h2, readU16_of_lt (by omega), ok_bind]
  by_cases hmin : payload.length < 2 + lenAt payload 0 + 2 + 2 + 32
  · rw [if_pos hmin]
    exact iff_of_false (by simp) fun h => by have := h.1; omega
  rw [if_neg hmin, slice_of_le (by omega) (by omega), ok_bind]
  have hsvc : (payload.drop 2).take (2 + lenAt payload 0 - 2) = serviceBytes payload := by
    rw [serviceBytes, Nat.add_sub_cancel_left]
  rw [hsvc]
  by_cases hutf : (fromUtf8 (serviceBytes payload)).isSome
  · obtain ⟨svc, hs⟩ := stringFromUtf8_of_isSome hutf
    rw [hs, ok_bind, decodeProvider_eq_panic (by omega)]
    simp [DataOpenOverruns, hutf, Nat.le_of_not_lt hmin]
  · rw [stringFromUtf8_of_not_isSome hutf, err_bind]
    simp [DataOpenOverruns, hutf]

/-! ## The other arms -/

theorem decodeAs_ne_panic (json : SerdeJson) (payload : Bytes) {t : Tag} (ht : t ≠ .dataOpen) :
    decodeAs json payload t ≠ .panic := by
  cases t with
  | dataOpen => exact absurd rfl ht
  | dataAuthHello =>
    rw [decodeAs]
    split_ifs <;> simp
  | dataAuthNonce | dataAuthProof =>
    rw [decodeAs]
    cases Bytes32.ofBytes? payload <;> simp
  | dataAuthOk | controlHeartbeat => simp [decodeAs]
  | dataAuthErr =>
    rw [decodeAs]
    split_ifs with h
    · simp
    · have hlen : 0 < payload.length := List.length_pos_iff.2 h
      rw [index_of_lt hlen, ok_bind, slice_of_le (by omega) le_rfl, ok_bind]
      intro hp
      rcases bind_eq_panic.1 hp with hs | ⟨s, -, hs⟩
      · exact stringFromUtf8_ne_panic _ hs
      · cases hs
  | controlError =>
    rw [decodeAs]
    split_ifs with h
    · simp
    · rw [readU16_of_lt (by omega), ok_bind, slice_of_le (by omega) le_rfl, ok_bind]
      intro hp
      rcases bind_eq_panic.1 hp with hs | ⟨s, -, hs⟩
      · exact stringFromUtf8_ne_panic _ hs
      · cases hs
  | controlHello | controlHelloOk | controlRegister | controlRegisterOk | controlSubscribe
  | controlSubscribeOk =>
    intro hp
    rcases bind_eq_panic.1 hp with hs | ⟨s, -, hs⟩
    · exact readJson_ne_panic _ _ hs
    · cases hs

/-! ## Panics of `decode` -/

/-- **Where `decode` stays inside its payload.** It returns on every tag and payload, of any
length, except the `DATA_OPEN` payloads whose provider overruns. -/
theorem decode_returns_iff (json : SerdeJson) (tag : UInt8) (payload : Bytes) :
    decode json tag payload ≠ .panic ↔
      ¬ (tag = Tag.dataOpen.byte ∧ DataOpenOverruns payload) := by
  by_cases htag : tag = Tag.dataOpen.byte
  · subst htag
    rw [decode_byte, decodeAs, Ne, decodeDataOpen_eq_panic]
    simp
  · refine iff_of_true ?_ fun h => htag h.1
    unfold decode
    cases ht : Tag.ofByte tag with
    | none => simp
    | some t =>
      refine decodeAs_ne_panic json payload fun h => htag ?_
      have hfound := List.find?_some ht
      rw [h] at hfound
      exact (beq_iff_eq.1 hfound).symm

/-- An empty service, a provider announced as 65535 bytes, and 34 bytes of zeros: the shortest
payload that passes the first length check. -/
def overrunPayload : Bytes := [0, 0, 255, 255] ++ List.replicate 34 0

/-- A header announcing `overrunPayload` brings the reader down on any ALPN. -/
theorem decode_overrunPayload :
    overrunPayload.length ≤ maxFramePayload ∧
      ∀ json, decode json Tag.dataOpen.byte overrunPayload = .panic := by
  refine ⟨by decide, fun json => ?_⟩
  rw [decode_byte, decodeAs, decodeDataOpen_eq_panic]
  decide

end MeshlyCore.Protocol.Frame
