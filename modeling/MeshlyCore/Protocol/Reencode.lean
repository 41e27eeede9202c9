import MeshlyCore.Protocol.Wire

/-!
# Encoding what was decoded

`decode` takes payloads from anyone. Whatever it accepts, the frame it returns says no more than
the payload: encoding the frame again gives the bytes that were read.

Three arms leave bytes of the payload unread. `AuthOk` and `Heartbeat` do not look at it, and
`DataOpen` stops after the proof. The other five arms that are not JSON read it whole.

**Theorem (`decode_reencodes`).** A frame that was decoded has the tag it was decoded under; and
if it is not JSON, its encoding is a prefix of the payload, and for all but those three tags the
payload itself.
-/

namespace MeshlyCore.Protocol

open Outcome

/-- The tags whose payload is JSON. -/
def Tag.isJson : Tag → Bool
  | controlHello | controlHelloOk | controlRegister | controlRegisterOk | controlSubscribe
  | controlSubscribeOk => true
  | _ => false

/-- The tags whose payload may go on after what is read. -/
def Tag.isOpenEnded : Tag → Bool
  | dataAuthOk | controlHeartbeat | dataOpen => true
  | _ => false

theorem Tag.byte_of_ofByte {b : UInt8} {t : Tag} (h : Tag.ofByte b = some t) : t.byte = b := by
  have hfound := List.find?_some h
  exact beq_iff_eq.1 hfound

namespace Frame

/-! ## Pieces of a payload -/

theorem stringFromUtf8_eq_ok {b : Bytes} {s : String} : stringFromUtf8 b = .ok s ↔ utf8 s = b := by
  rw [← fromUtf8_eq_some, stringFromUtf8]
  cases fromUtf8 b <;> simp

theorem putU16Le_u16FromLe (lo hi : UInt8) : putU16Le (u16FromLe lo hi) = [lo, hi] := by
  have hlo := lo.toNat_lt
  have hhi := hi.toNat_lt
  have hlow : UInt8.ofNat (lo.toNat + 256 * hi.toNat) = lo := by
    apply UInt8.toNat_inj.1
    rw [UInt8.toNat_ofNat']
    omega
  have hhigh : UInt8.ofNat ((lo.toNat + 256 * hi.toNat) >>> 8) = hi := by
    apply UInt8.toNat_inj.1
    rw [UInt8.toNat_ofNat', Nat.shiftRight_eq_div_pow]
    omega
  rw [putU16Le, u16FromLe, hlow, hhigh]

theorem readU16_eq_ok {payload : Bytes} {i n : ℕ} (h : readU16 payload i = .ok n) :
    n ≤ u16Max ∧ payload.drop i = putU16Le n ++ payload.drop (i + 2) := by
  obtain ⟨lo, hlo, h⟩ := bind_eq_ok.1 h
  obtain ⟨hi, hhi, h⟩ := bind_eq_ok.1 h
  obtain rfl := Outcome.ok.inj h
  rw [index_eq_ok, List.getElem?_eq_some_iff] at hlo hhi
  obtain ⟨hlt, rfl⟩ := hlo
  obtain ⟨hlt', rfl⟩ := hhi
  have hlo := (payload[i]).toNat_lt
  have hhi := (payload[i + 1]).toNat_lt
  refine ⟨by unfold u16FromLe u16Max; omega, ?_⟩
  rw [putU16Le_u16FromLe, List.drop_eq_getElem_cons hlt, List.drop_eq_getElem_cons hlt']
  rfl

theorem ofBytes?_eq_some {b : Bytes} {a : Bytes32} (h : Bytes32.ofBytes? b = some a) :
    a.val = b := by
  unfold Bytes32.ofBytes? at h
  split_ifs at h
  rw [← Option.some.inj h]

/-- A string with its length before it: what is read at `i` is encoded as what stands there. -/
theorem putPrefixed_of_read {payload b : Bytes} {i j n : ℕ} {s : String}
    (hn : readU16 payload i = .ok n) (hb : slice payload (i + 2) j = (.ok b : Outcome FrameError _))
    (hs : stringFromUtf8 b = .ok s) (hj : j = i + 2 + n) :
    ∃ e, putPrefixed s = .ok e ∧ payload.drop i = e ++ payload.drop j := by
  obtain ⟨hmax, hdrop⟩ := readU16_eq_ok hn
  obtain ⟨⟨-, hle⟩, rfl⟩ := slice_eq_ok.1 hb
  rw [stringFromUtf8_eq_ok] at hs
  have hlen : (utf8 s).length = n := by
    rw [hs, List.length_take, List.length_drop]
    omega
  refine ⟨putU16Le n ++ utf8 s, ?_, ?_⟩
  · rw [putPrefixed, hlen, if_neg (by omega)]
  · rw [hdrop, hs, List.append_assoc]
    congr 1
    have hcut := List.take_append_drop (j - (i + 2)) (payload.drop (i + 2))
    rw [List.drop_drop, show i + 2 + (j - (i + 2)) = j by omega] at hcut
    exact hcut.symm

/-! ## `DataOpen` -/

/-- The last stage has read a string and the proof. -/
theorem decodeConsumer_reencodes {payload : Bytes} {svc provider : String} {provEnd : ℕ} {f : Frame}
    (h : decodeConsumer payload svc provider provEnd = .ok f) :
    ∃ consumer proof c, f = dataOpen svc provider consumer proof ∧ putPrefixed consumer = .ok c ∧
      c ++ proof.val <+: payload.drop provEnd := by
  obtain ⟨consLen, hlen, h⟩ := bind_eq_ok.1 h
  dsimp only at h
  split_ifs at h
  obtain ⟨b, hb, h⟩ := bind_eq_ok.1 h
  obtain ⟨consumer, hconsumer, h⟩ := bind_eq_ok.1 h
  obtain ⟨last, hlast, h⟩ := bind_eq_ok.1 h
  obtain ⟨⟨-, hle⟩, rfl⟩ := slice_eq_ok.1 hlast
  obtain ⟨c, hc, hdrop⟩ := putPrefixed_of_read hlen hb hconsumer rfl
  split at h
  · rename_i proof hproof
    obtain rfl := Outcome.ok.inj h
    refine ⟨consumer, proof, c, rfl, hc, ?_⟩
    rw [hdrop, ofBytes?_eq_some hproof, List.prefix_append_right_inj]
    exact List.take_prefix _ _
  · cases h

/-- The middle stage has read two strings and the proof. -/
theorem decodeProvider_reencodes {payload : Bytes} {svc : String} {svcLen : ℕ} {f : Frame}
    (h : decodeProvider payload svc svcLen = .ok f) :
    ∃ provider consumer proof p c, f = dataOpen svc provider consumer proof ∧
      putPrefixed provider = .ok p ∧ putPrefixed consumer = .ok c ∧
      p ++ (c ++ proof.val) <+: payload.drop (2 + svcLen) := by
  obtain ⟨provLen, hlen, h⟩ := bind_eq_ok.1 h
  obtain ⟨b, hb, h⟩ := bind_eq_ok.1 h
  obtain ⟨provider, hprovider, h⟩ := bind_eq_ok.1 h
  obtain ⟨p, hp, hdrop⟩ := putPrefixed_of_read hlen hb hprovider rfl
  obtain ⟨consumer, proof, c, rfl, hc, hrest⟩ := decodeConsumer_reencodes h
  refine ⟨provider, consumer, proof, p, c, rfl, hp, hc, ?_⟩
  rw [hdrop, List.prefix_append_right_inj]
  exact hrest

/-- **What `DataOpen` was decoded from** begins with its encoding. -/
theorem decodeDataOpen_reencodes (json : SerdeJson) {payload : Bytes} {f : Frame}
    (h : decodeDataOpen payload = .ok f) :
    f.tag = .dataOpen ∧ ∃ e, encodePayload json f = .ok e ∧ e <+: payload := by
  rw [decodeDataOpen_eq] at h
  split_ifs at h
  obtain ⟨svcLen, hlen, h⟩ := bind_eq_ok.1 h
  dsimp only at h
  split_ifs at h
  obtain ⟨b, hb, h⟩ := bind_eq_ok.1 h
  obtain ⟨svc, hsvc, h⟩ := bind_eq_ok.1 h
  obtain ⟨s, hs, hdrop⟩ := putPrefixed_of_read hlen hb hsvc (by omega)
  obtain ⟨provider, consumer, proof, p, c, rfl, hp, hc, hrest⟩ := decodeProvider_reencodes h
  refine ⟨rfl, s ++ p ++ c ++ proof.val, ?_, ?_⟩
  · simp only [encodePayload, hs, hp, hc, bind, Except.bind]
  · rw [List.drop_zero] at hdrop
    rw [hdrop, List.append_assoc, List.append_assoc, List.prefix_append_right_inj]
    exact hrest

/-! ## The other arms -/

/-- What `decode` accepts, by tag: the frame has the tag, and a frame that is not JSON is encoded
as the front of the payload, or as the whole of it. -/
theorem decodeAs_reencodes (json : SerdeJson) {payload : Bytes} {t : Tag} {f : Frame}
    (h : decodeAs json payload t = .ok f) :
    f.tag = t ∧ (t.isJson = false → ∃ e, encodePayload json f = .ok e ∧ e <+: payload ∧
      (t.isOpenEnded = false → e = payload)) := by
  cases t with
  | dataAuthHello =>
    rw [decodeAs] at h
    split_ifs at h with hnil
    obtain rfl := Outcome.ok.inj h
    exact ⟨rfl, fun _ => ⟨[], rfl, List.nil_prefix, fun _ => hnil.symm⟩⟩
  | dataAuthNonce =>
    rw [decodeAs] at h
    split at h
    · rename_i nonce hnonce
      obtain rfl := Outcome.ok.inj h
      exact ⟨rfl, fun _ => ⟨nonce.val, rfl, by simp [ofBytes?_eq_some hnonce], fun _ =>
        ofBytes?_eq_some hnonce⟩⟩
    · cases h
  | dataAuthProof =>
    rw [decodeAs] at h
    split at h
    · rename_i mac hmac
      obtain rfl := Outcome.ok.inj h
      exact ⟨rfl, fun _ => ⟨mac.val, rfl, by simp [ofBytes?_eq_some hmac], fun _ =>
        ofBytes?_eq_some hmac⟩⟩
    · cases h
  | dataAuthOk =>
    obtain rfl := Outcome.ok.inj h
    exact ⟨rfl, fun _ => ⟨[], rfl, List.nil_prefix, fun hopen => by cases hopen⟩⟩
  | dataAuthErr =>
    rw [decodeAs] at h
    split_ifs at h with hnil
    obtain ⟨code, tail, rfl⟩ := List.exists_cons_of_ne_nil hnil
    obtain ⟨_, hcode, h⟩ := bind_eq_ok.1 h
    obtain rfl := Outcome.ok.inj hcode
    obtain ⟨b, hb, h⟩ := bind_eq_ok.1 h
    obtain ⟨reason, hreason, h⟩ := bind_eq_ok.1 h
    obtain rfl := Outcome.ok.inj h
    obtain ⟨-, rfl⟩ := slice_eq_ok.1 hb
    have hwhole : utf8 reason = tail := by simpa using stringFromUtf8_eq_ok.1 hreason
    exact ⟨rfl, fun _ => ⟨code :: utf8 reason, rfl, by rw [hwhole], fun _ => by rw [hwhole]⟩⟩
  | dataOpen =>
    obtain ⟨htag, e, he, hpre⟩ := decodeDataOpen_reencodes json h
    exact ⟨htag, fun _ => ⟨e, he, hpre, fun hopen => by cases hopen⟩⟩
  | controlHello | controlHelloOk | controlRegister | controlRegisterOk | controlSubscribe
  | controlSubscribeOk =>
    obtain ⟨v, -, h⟩ := bind_eq_ok.1 h
    obtain rfl := Outcome.ok.inj h
    exact ⟨rfl, fun hjson => by cases hjson⟩
  | controlHeartbeat =>
    obtain rfl := Outcome.ok.inj h
    exact ⟨rfl, fun _ => ⟨[], rfl, List.nil_prefix, fun hopen => by cases hopen⟩⟩
  | controlError =>
    rw [decodeAs] at h
    split_ifs at h with hshort
    obtain ⟨code, hcode, h⟩ := bind_eq_ok.1 h
    obtain ⟨b, hb, h⟩ := bind_eq_ok.1 h
    obtain ⟨reason, hreason, h⟩ := bind_eq_ok.1 h
    obtain rfl := Outcome.ok.inj h
    obtain ⟨hmax, hdrop⟩ := readU16_eq_ok hcode
    obtain ⟨-, rfl⟩ := slice_eq_ok.1 hb
    have hlt : code < 65536 := Nat.lt_succ_of_le hmax
    have hwhole : putU16Le (UInt16.ofNat code).toNat ++ utf8 reason = payload := by
      rw [UInt16.toNat_ofNat_of_lt' hlt, stringFromUtf8_eq_ok.1 hreason,
        List.take_of_length_le (by rw [List.length_drop])]
      exact hdrop.symm
    exact ⟨rfl, fun _ => ⟨_, rfl, by rw [hwhole], fun _ => hwhole⟩⟩

/-- **Encoding what was decoded** gives back what was read. -/
theorem decode_reencodes (json : SerdeJson) (tag : UInt8) (payload : Bytes) (f : Frame)
    (h : decode json tag payload = .ok f) :
    f.tag.byte = tag ∧ (f.tag.isJson = false → ∃ e, encodePayload json f = .ok e ∧ e <+: payload ∧
      (f.tag.isOpenEnded = false → e = payload)) := by
  unfold decode at h
  split at h
  · rename_i t ht
    obtain ⟨rfl, hencode⟩ := decodeAs_reencodes json h
    exact ⟨Tag.byte_of_ofByte ht, hencode⟩
  · cases h

/-- A bad proof, with its reason. -/
theorem decode_reencodes_authErr :
    encodePayload sampleJson (.authErr authErrBadProof "no") = .ok (1 :: utf8 "no") := by
  obtain ⟨-, hencode⟩ := decode_reencodes sampleJson Tag.dataAuthErr.byte (1 :: utf8 "no")
    (.authErr authErrBadProof "no") (by decide)
  obtain ⟨e, he, -, hwhole⟩ := hencode rfl
  rw [he, hwhole rfl]

end Frame

end MeshlyCore.Protocol
