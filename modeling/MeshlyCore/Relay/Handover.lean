import MeshlyCore.Relay.Transparent

/-!
# From the handshake to the tunnel

The handshake runs on the stream that is bridged afterwards, in both directions. So a session that
read one byte too many, or left one behind, would damage what the tunnel carries.

Both sides read frames, and a frame says where it ends; each waits for the other's last frame before
it goes on. What each side has said and heard is then a function of its phase (`ConsumerAt`,
`ProviderAt`).

**Theorem (`direct_handover`).** What an end of the tunnel reads is a prefix of what the other end
has written to it, in any run and however the streams cut the bytes up; and when the dial returns,
the provider has accepted its proof, and nothing is on the streams but what the tunnel has put
there.

**Theorem (`relay_handover`).** The same through the relay.
-/

namespace MeshlyCore.Relay

open Streams Machine Protocol Handshake Control
open Protocol.Frame (readFrom frameLength wanted)

/-! ## The ends of a tunnel -/

/-- A session, and what has taken its stream over: the bridge to a socket, or the HTTP server. -/
structure End (φ : Type) where
  session : Peer φ
  /-- What was written to the stream after the handshake. -/
  sent : Bytes
  /-- What was read from it. -/
  got : Bytes
  deriving DecidableEq

/-- The stream is handed over when the session has succeeded and its last frame is written. -/
def End.next {φ : Type} (opened : φ → Bool)
    (sessionNext : Peer φ → PeerAct UInt8 Turn → Option (Peer φ)) (e : End φ)
    (a : PeerAct UInt8 Turn) : Option (End φ) :=
  if opened e.session.phase ∧ e.session.out = [] then
    match a with
    | .writes xs => if xs = [] then none else some { e with sent := e.sent ++ xs }
    | .reads xs => if xs = [] then none else some { e with got := e.got ++ xs }
    | .moves _ => none
  else (sessionNext e.session a).map fun session => { e with session }

def consumerOpened : ConsumerPhase → Bool
  | .connected => true
  | _ => false

def providerOpened : ProviderPhase Bytes32 → Bool
  | .authenticated _ _ _ => true
  | _ => false

/-! ## What an end does -/

section Ends

variable {φ : Type} {json : SerdeJson} {opened waits : φ → Bool}
  {turn : Bool → φ → Input Bytes32 → φ × List (Message Bytes32)} {e e' : End φ}
  {a : PeerAct UInt8 Turn} {mine theirs : Pipe UInt8} {said heard xs : Bytes}

/-- The phase after an input, and what is to be written then. -/
def turned {φ : Type} (json : SerdeJson)
    (turn : Bool → φ → Input Bytes32 → φ × List (Message Bytes32)) (ok : Bool) (phase : φ)
    (input : Input Bytes32) : Peer φ :=
  ⟨(turn ok phase input).1, [], wireBytes json (turn ok phase input).2⟩

inductive EndMove {φ : Type} (json : SerdeJson) (opened waits : φ → Bool)
    (turn : Bool → φ → Input Bytes32 → φ × List (Message Bytes32)) (e : End φ) :
    PeerAct UInt8 Turn → End φ → Prop
  | sends {xs : Bytes} (opens : opened e.session.phase) (flushed : e.session.out = []) :
      EndMove json opened waits turn e (.writes xs) { e with sent := e.sent ++ xs }
  | writes {xs rest : Bytes} (ne : xs ≠ []) (out : e.session.out = xs ++ rest) :
      EndMove json opened waits turn e (.writes xs)
        { e with session := { e.session with out := rest } }
  | gets {xs : Bytes} (opens : opened e.session.phase) (flushed : e.session.out = []) :
      EndMove json opened waits turn e (.reads xs) { e with got := e.got ++ xs }
  | reads {xs : Bytes} (ne : xs ≠ []) (waiting : waits e.session.phase)
      (le : xs.length ≤ wanted e.session.acc) :
      EndMove json opened waits turn e (.reads xs)
        { e with session := { e.session with acc := e.session.acc ++ xs } }
  | frame {ok : Bool} (waiting : waits e.session.phase) (flushed : e.session.out = [])
      (whole : wanted e.session.acc = 0) :
      EndMove json opened waits turn e (.moves (.frame ok)) { e with
        session := turned json turn ok e.session.phase
          (.ofRead (readFrom json ⟨e.session.acc, none⟩)) }
  | lost {ok : Bool} (waiting : waits e.session.phase) (flushed : e.session.out = []) :
      EndMove json opened waits turn e (.moves (.lost ok))
        { e with session := turned json turn ok e.session.phase .lost }

theorem end_move (h : e.next opened (Peer.next json waits turn) a = some e') :
    EndMove json opened waits turn e a e' := by
  unfold End.next at h
  split_ifs at h with hopen
  · cases a with
    | writes xs =>
      simp only at h
      split_ifs at h
      obtain rfl := Option.some.inj h
      exact .sends hopen.1 hopen.2
    | reads xs =>
      simp only at h
      split_ifs at h
      obtain rfl := Option.some.inj h
      exact .gets hopen.1 hopen.2
    | moves t => cases h
  · obtain ⟨p, hp, rfl⟩ := Option.map_eq_some_iff.1 h
    cases a with
    | writes xs =>
      simp only [Peer.next] at hp
      split_ifs at hp with hcond
      obtain rfl := Option.some.inj hp
      obtain ⟨rest, hout⟩ := hcond.2
      rw [← hout, List.drop_left]
      exact .writes hcond.1 hout.symm
    | reads xs =>
      simp only [Peer.next] at hp
      split_ifs at hp with hcond
      obtain rfl := Option.some.inj hp
      exact .reads hcond.2.2.1 hcond.2.1 hcond.2.2.2
    | moves t =>
      cases t with
      | frame ok =>
        simp only [Peer.next] at hp
        split_ifs at hp with hcond
        obtain rfl := Option.some.inj hp
        exact .frame hcond.2.1 hcond.1 hcond.2.2
      | lost ok =>
        simp only [Peer.next] at hp
        split_ifs at hp with hcond
        obtain rfl := Option.some.inj hp
        exact .lost hcond.2 hcond.1

/-- Where an end is on its two streams: its session has said `said` and heard `heard`, and whatever
else was written or read is the tunnel's. -/
structure End.At {φ : Type} (opened waits : φ → Bool) (said heard : Bytes)
    (mine theirs : Pipe UInt8) (e : End φ) : Prop where
  said : mine.written ++ e.session.out = said ++ e.sent
  flushed : e.sent ≠ [] → e.session.out = []
  read_le : theirs.read ≤ theirs.written.length
  heard : theirs.written.take theirs.read = heard ++ e.session.acc ++ e.got
  within : e.session.acc.length ≤ frameLength e.session.acc
  closed : opened e.session.phase = false → e.sent = [] ∧ e.got = []
  clear : waits e.session.phase = false → e.session.acc = []

/-- What the other end writes is not read yet. -/
theorem End.At.write_other (h : e.At opened waits said heard mine theirs) (xs : Bytes) :
    e.At opened waits said heard mine (theirs.write xs) := by
  have hle : theirs.read ≤ (theirs.written ++ xs).length := by
    rw [List.length_append]
    exact Nat.le_add_right_of_le h.read_le
  refine ⟨h.said, h.flushed, hle, ?_, h.within, h.closed, h.clear⟩
  show (theirs.written ++ xs).take theirs.read = _
  rw [List.take_append_of_le_length h.read_le, h.heard]

theorem End.At.take_other (h : e.At opened waits said heard mine theirs) (n : ℕ) :
    e.At opened waits said heard (mine.take n) theirs :=
  ⟨h.said, h.flushed, h.read_le, h.heard, h.within, h.closed, h.clear⟩

/-- What an end has read was written by the other one. -/
theorem heard_within {ψ : Type} {opened' waits' : ψ → Bool} {f : End ψ} {said' heard' : Bytes}
    (he : e.At opened waits said heard mine theirs)
    (hf : f.At opened' waits' said' heard' theirs mine) :
    heard ++ e.session.acc ++ e.got <+: said' ++ f.sent := by
  rw [← he.heard, ← hf.said]
  exact (List.take_prefix _ _).trans (List.prefix_append _ _)

theorem End.At.writes (h : e.At opened waits said heard mine theirs)
    (hm : EndMove json opened waits turn e (.writes xs) e') :
    e'.At opened waits said heard (mine.write xs) theirs ∧
      e'.session.phase = e.session.phase := by
  cases hm with
  | sends opens flushed =>
    refine ⟨⟨?_, fun _ => flushed, h.read_le, h.heard, h.within, fun hclosed => ?_, h.clear⟩, rfl⟩
    · have hsaid := h.said
      rw [flushed, List.append_nil] at hsaid
      show mine.written ++ xs ++ e.session.out = said ++ (e.sent ++ xs)
      rw [flushed, List.append_nil, hsaid, List.append_assoc]
    · rw [opens] at hclosed
      cases hclosed
  | @writes _ rest ne out =>
    refine ⟨⟨?_, fun hsent => ?_, h.read_le, h.heard, h.within, h.closed, h.clear⟩, rfl⟩
    · show mine.written ++ xs ++ rest = said ++ e.sent
      rw [List.append_assoc, ← out, h.said]
    · have hflushed := h.flushed hsent
      rw [out] at hflushed
      exact absurd (List.append_eq_nil_iff.1 hflushed).1 ne

theorem End.At.reads (h : e.At opened waits said heard mine theirs)
    (hwaits : ∀ p, opened p → waits p = false)
    (hm : EndMove json opened waits turn e (.reads xs) e') (hoffers : theirs.Offers xs) :
    e'.At opened waits said heard mine (theirs.take xs.length) ∧
      e'.session.phase = e.session.phase := by
  obtain ⟨rest, hrest⟩ := hoffers
  have hle : (theirs.take xs.length).read ≤ theirs.written.length := by
    have := congrArg List.length hrest
    rw [Pipe.pending, List.length_append, List.length_drop] at this
    have := h.read_le
    show theirs.read + xs.length ≤ _
    omega
  have htake : theirs.written.take (theirs.take xs.length).read =
      heard ++ e.session.acc ++ e.got ++ xs := by
    rw [Pipe.take_read_take, h.heard, ← hrest, List.take_left]
  cases hm with
  | gets opens _ =>
    refine ⟨⟨h.said, h.flushed, hle, ?_, h.within, fun hclosed => ?_, h.clear⟩, rfl⟩
    · exact htake.trans (List.append_assoc ..)
    · rw [opens] at hclosed
      cases hclosed
  | reads _ waiting le =>
    have hclosed : opened e.session.phase = false := by
      by_contra hopen
      rw [hwaits _ (by simpa using hopen)] at waiting
      cases waiting
    refine ⟨⟨h.said, h.flushed, hle, ?_, Protocol.Frame.within_append h.within le, h.closed,
      fun hdone => ?_⟩, rfl⟩
    · rw [(h.closed hclosed).2, List.append_nil] at htake
      show theirs.written.take (theirs.take xs.length).read =
        heard ++ (e.session.acc ++ xs) ++ e.got
      rw [htake, (h.closed hclosed).2, List.append_nil, List.append_assoc]
    · have hdone' : waits e.session.phase = false := hdone
      rw [waiting] at hdone'
      cases hdone'

/-- A session turns: what it read so far is heard, and what it says is to be written. -/
theorem End.At.turns (h : e.At opened waits said heard mine theirs)
    (hwaits : ∀ p, opened p → waits p = false) {t : Turn}
    (hm : EndMove json opened waits turn e (.moves t) e') :
    ∃ ok input, waits e.session.phase ∧ e'.session = turned json turn ok e.session.phase input ∧
      (input = .lost ∨
        (wanted e.session.acc = 0 ∧ input = .ofRead (readFrom json ⟨e.session.acc, none⟩))) ∧
      e'.At opened waits (said ++ e'.session.out) (heard ++ e.session.acc) mine theirs := by
  have hat : ∀ session, waits e.session.phase → e.session.out = [] → session.acc = [] →
      ({ e with session } : End φ).At opened waits (said ++ session.out) (heard ++ e.session.acc)
        mine theirs := by
    intro session waiting flushed hacc
    have hclosed : opened e.session.phase = false := by
      by_contra hopen
      rw [hwaits _ (by simpa using hopen)] at waiting
      cases waiting
    obtain ⟨hsent, hgot⟩ := h.closed hclosed
    have hsaid := h.said
    rw [flushed, hsent, List.append_nil, List.append_nil] at hsaid
    refine ⟨?_, fun hne => absurd hsent hne, h.read_le, ?_, ?_, fun _ => ⟨hsent, hgot⟩,
      fun _ => hacc⟩
    · rw [hsaid, hsent, List.append_nil]
    · rw [h.heard, hacc, List.append_nil]
    · rw [hacc]
      exact Nat.zero_le _
  cases hm with
  | @frame ok waiting flushed whole =>
    exact ⟨ok, _, waiting, rfl, .inr ⟨whole, rfl⟩, hat _ waiting flushed rfl⟩
  | @lost ok waiting flushed =>
    exact ⟨ok, _, waiting, rfl, .inl rfl, hat _ waiting flushed rfl⟩

end Ends

/-! ## The five frames -/

/-- A frame is all there is. -/
def Whole (json : SerdeJson) (b : Bytes) (m : Message Bytes32) : Prop :=
  ∃ f, readFrom json ⟨b, none⟩ = .ok (f, ⟨[], none⟩) ∧ Message.ofFrame f = m

theorem wireBytes_single {json : SerdeJson} {f : Frame} {payload : Bytes}
    (hf : (Message.ofFrame f).frame = some f) (henc : Frame.encodePayload json f = .ok payload)
    (hlen : payload.length ≤ maxFramePayload) :
    wireBytes json [Message.ofFrame f] = Frame.frameBytes f.tag payload := by
  have hwrite := Frame.writeTo_reliable json f (Writer.reliable_mk [])
  simp only [henc, if_neg (Nat.not_lt.2 hlen)] at hwrite
  simp [wireBytes, hf, Frame.writeFrames, hwrite]

theorem whole_wireBytes {json : SerdeJson} {f : Frame} {payload : Bytes}
    (hf : (Message.ofFrame f).frame = some f) (henc : Frame.encodePayload json f = .ok payload)
    (hdec : Frame.decodeAs json payload f.tag = .ok f) (hlen : payload.length ≤ maxFramePayload) :
    Whole json (wireBytes json [Message.ofFrame f]) (Message.ofFrame f) := by
  refine ⟨f, ?_, rfl⟩
  have hread := Frame.readFrom_frameBytes_of_decode (r := ⟨[], none⟩)
    (by rw [Frame.decode_byte, hdec]) hlen
  rw [wireBytes_single hf henc hlen]
  rwa [List.append_nil] at hread

theorem whole_authHello (json : SerdeJson) :
    Whole json (wireBytes json [.authHello]) .authHello :=
  whole_wireBytes (f := .authHello) rfl rfl rfl (by decide)

theorem whole_authOk (json : SerdeJson) : Whole json (wireBytes json [.authOk]) .authOk :=
  whole_wireBytes (f := .authOk) rfl rfl rfl (by decide)

theorem whole_authNonce (json : SerdeJson) (nonce : Bytes32) :
    Whole json (wireBytes json [.authNonce nonce]) (.authNonce nonce) :=
  whole_wireBytes (f := .authNonce nonce) rfl rfl (by simp [Frame.decodeAs, Frame.tag])
    (nonce.property.le.trans (by decide))

theorem whole_authProof (json : SerdeJson) (mac : Bytes32) :
    Whole json (wireBytes json [.authProof mac]) (.authProof mac) :=
  whole_wireBytes (f := .authProof mac) rfl rfl (by simp [Frame.decodeAs, Frame.tag])
    (mac.property.le.trans (by decide))

def badProof : Message Bytes32 := .authErr authErrBadProof "bad HMAC proof"

theorem whole_badProof (json : SerdeJson) : Whole json (wireBytes json [badProof]) badProof := by
  -- No serde is in it, so any will do.
  have hdec := Frame.decodeAs_encodePayload Frame.sampleJson_roundTrips
    (f := .authErr authErrBadProof "bad HMAC proof") rfl
  exact whole_wireBytes (f := .authErr authErrBadProof "bad HMAC proof") rfl rfl hdec (by decide)

section Frames

variable {json : SerdeJson} {b acc heard rest : Bytes} {m : Message Bytes32}

theorem Whole.ne_nil (h : Whole json b m) : b ≠ [] := by
  obtain ⟨f, hread, -⟩ := h
  rintro rfl
  exact absurd (Frame.three_le_of_readFrom hread) (by simp)

theorem Whole.received (h : Whole json b m) :
    Input.ofRead (readFrom json ⟨b, none⟩) = .received m := by
  obtain ⟨f, hread, rfl⟩ := h
  rw [hread, Input.ofRead]

/-- What a session has read when nothing is missing is the frame that comes first. -/
theorem Whole.first (h : Whole json b m) (hle : acc <+: b ++ rest)
    (hwithin : acc.length ≤ frameLength acc) (hwhole : wanted acc = 0) : acc = b := by
  obtain ⟨f, hread, -⟩ := h
  rcases List.prefix_or_prefix_of_prefix hle (List.prefix_append b rest) with hpart | hpart
  · by_contra hne
    have hlt : acc.length < b.length :=
      lt_of_le_of_ne hpart.length_le fun heq => hne (hpart.eq_of_length heq)
    exact absurd hwhole (Frame.wanted_of_prefix hread hpart hlt).ne'
  · obtain ⟨xs, rfl⟩ := hpart
    rw [Frame.frameLength_append (Frame.three_le_of_readFrom hread)] at hwithin
    have hend := Frame.readFrom_eq_ok hread
    have hsize : frameLength b ≤ b.length := hend.1
    have hxs : xs = [] := by
      rw [List.length_append] at hwithin
      exact List.length_eq_zero_iff.1 (by omega)
    rw [hxs, List.append_nil]

/-- And after what it has heard, the frame that comes next. -/
theorem Whole.next (h : Whole json b m) (hle : heard ++ acc <+: heard ++ b ++ rest)
    (hwithin : acc.length ≤ frameLength acc) (hwhole : wanted acc = 0) : acc = b := by
  rw [List.append_assoc] at hle
  exact h.first ((List.prefix_append_right_inj heard).1 hle) hwithin hwhole

/-- Something is missing when nothing came. -/
theorem not_whole_of_silence (hle : heard ++ acc <+: heard) : wanted acc ≠ 0 := by
  have hlen := hle.length_le
  rw [List.length_append] at hlen
  have hnil : acc = [] := List.length_eq_zero_iff.1 (by omega)
  rw [hnil]
  decide

end Frames

/-! ## What was said and heard -/

section Tables

variable (x : Exchange) (json : SerdeJson)

def Exchange.mac : Bytes32 :=
  makeProof x.hmac x.consumer.sharedSecret x.consumer.name x.nonce

/-- The provider accepts the consumer's proof. -/
def Exchange.Verifies : Prop :=
  verifyProof x.hmac x.provider.sharedSecret x.provider.name x.nonce x.mac

/-- What the consumer has said and heard, in each phase. -/
inductive ConsumerAt : ConsumerPhase → Bytes → Bytes → Prop
  | awaitNonce : ConsumerAt .awaitNonce (wireBytes json [.authHello]) []
  | awaitVerdict : ConsumerAt .awaitVerdict
      (wireBytes json [.authHello] ++ wireBytes json [.authProof x.mac])
      (wireBytes json [.authNonce x.nonce])
  | connected : ConsumerAt .connected
      (wireBytes json [.authHello] ++ wireBytes json [.authProof x.mac])
      (wireBytes json [.authNonce x.nonce] ++ wireBytes json [.authOk])
  | unproved {e : DialError} {heard : Bytes} :
      ConsumerAt (.failed e) (wireBytes json [.authHello]) heard
  | proved {e : DialError} {heard : Bytes} : ConsumerAt (.failed e)
      (wireBytes json [.authHello] ++ wireBytes json [.authProof x.mac]) heard

/-- What the provider has. -/
inductive ProviderAt : ProviderPhase Bytes32 → Bytes → Bytes → Prop
  | awaitHello : ProviderAt .awaitHello [] []
  | awaitProof : ProviderAt (.awaitProof x.nonce) (wireBytes json [.authNonce x.nonce])
      (wireBytes json [.authHello])
  | authenticated (verifies : x.Verifies) : ProviderAt (.authenticated x.nonce x.mac x.serving)
      (wireBytes json [.authNonce x.nonce] ++ wireBytes json [.authOk])
      (wireBytes json [.authHello] ++ wireBytes json [.authProof x.mac])
  | silent {heard : Bytes} : ProviderAt .closed [] heard
  | asked {heard : Bytes} : ProviderAt .closed (wireBytes json [.authNonce x.nonce]) heard
  | rejected {heard : Bytes} : ProviderAt .closed
      (wireBytes json [.authNonce x.nonce] ++ wireBytes json [badProof]) heard

/-- The consumer's end, and the provider's. -/
abbrev ConsumerEnd := End ConsumerPhase
abbrev ProviderEnd := End (ProviderPhase Bytes32)

/-- What a session does with an input, as in `dialNext` and `providerNext`. -/
abbrev consumerTurn (_ok : Bool) (phase : ConsumerPhase) (input : Input Bytes32) :
    ConsumerPhase × List (Message Bytes32) :=
  ((dialStep x.hmac x.consumer phase input).1,
    proofMessages (dialStep x.hmac x.consumer phase input).2)

abbrev providerTurn (ok : Bool) (phase : ProviderPhase Bytes32) (input : Input Bytes32) :
    ProviderPhase Bytes32 × List (Message Bytes32) :=
  Provider.handle x.hmac ⟨x.serving, x.provider, phase⟩ x.nonce ok input

def consumerEndNext : ConsumerEnd → PeerAct UInt8 Turn → Option ConsumerEnd :=
  End.next consumerOpened (dialNext json x.hmac x.consumer)

def providerEndNext : ProviderEnd → PeerAct UInt8 Turn → Option ProviderEnd :=
  End.next providerOpened (Handshake.providerNext json x.hmac x.serving x.provider x.nonce)

abbrev Ends := Direct UInt8 ConsumerEnd ProviderEnd

structure Handing (d : Ends) : Prop where
  consumer : ∃ said heard, ConsumerAt x json d.near.session.phase said heard ∧
    d.near.At consumerOpened ConsumerPhase.waits said heard d.there d.back
  provider : ∃ said heard, ProviderAt x json d.far.session.phase said heard ∧
    d.far.At providerOpened ProviderPhase.waits said heard d.back d.there

end Tables

/-! ## Steps -/

section Steps

variable {x : Exchange} {json : SerdeJson} {near near' : ConsumerEnd} {far far' : ProviderEnd}
  {there back : Pipe UInt8} {said heard said' heard' : Bytes} {d d' : Ends}

theorem waits_of_consumerOpened (p : ConsumerPhase) (h : consumerOpened p) : p.waits = false := by
  cases p <;> first | rfl | cases h

theorem waits_of_providerOpened (p : ProviderPhase Bytes32) (h : providerOpened p) :
    p.waits = false := by
  cases p <;> first | rfl | cases h

theorem wireBytes_nil (json : SerdeJson) : wireBytes json [] = [] := rfl

theorem ConsumerAt.said_cases {p : ConsumerPhase} (h : ConsumerAt x json p said heard) :
    (said = wireBytes json [.authHello] ∧ consumerOpened p = false) ∨
      said = wireBytes json [.authHello] ++ wireBytes json [.authProof x.mac] := by
  cases h with
  | awaitNonce => exact .inl ⟨rfl, rfl⟩
  | unproved => exact .inl ⟨rfl, rfl⟩
  | _ => exact .inr rfl

theorem ProviderAt.said_cases {p : ProviderPhase Bytes32} (h : ProviderAt x json p said heard) :
    (providerOpened p = false ∧ (said = [] ∨ said = wireBytes json [.authNonce x.nonce] ∨
      said = wireBytes json [.authNonce x.nonce] ++ wireBytes json [badProof])) ∨
    (p = .authenticated x.nonce x.mac x.serving ∧ x.Verifies ∧
      said = wireBytes json [.authNonce x.nonce] ++ wireBytes json [.authOk]) := by
  cases h with
  | authenticated verifies => exact .inr ⟨rfl, verifies, rfl⟩
  | awaitHello => exact .inl ⟨rfl, .inl rfl⟩
  | awaitProof => exact .inl ⟨rfl, .inr (.inl rfl)⟩
  | silent => exact .inl ⟨rfl, .inl rfl⟩
  | asked => exact .inl ⟨rfl, .inr (.inl rfl)⟩
  | rejected => exact .inl ⟨rfl, .inr (.inr rfl)⟩

/-- The frame that the provider waits for is the one that the consumer says next. -/
theorem hears_consumer (hc : ConsumerAt x json near.session.phase said heard)
    (hn : near.At consumerOpened ConsumerPhase.waits said heard there back)
    (hf : far.At providerOpened ProviderPhase.waits said' heard' back there)
    (hwhole : wanted far.session.acc = 0) :
    (heard' = [] → far.session.acc = wireBytes json [.authHello]) ∧
      (heard' = wireBytes json [.authHello] →
        far.session.acc = wireBytes json [.authProof x.mac]) := by
  have hle : heard' ++ far.session.acc <+: said ++ near.sent :=
    (List.prefix_append _ _).trans (heard_within hf hn)
  rcases hc.said_cases with ⟨rfl, hclosed⟩ | rfl
  · rw [(hn.closed hclosed).1, List.append_nil] at hle
    constructor
    · rintro rfl
      exact (whole_authHello json).first (by rwa [List.append_nil]) hf.within hwhole
    · rintro rfl
      exact absurd hwhole (not_whole_of_silence hle)
  · constructor
    · rintro rfl
      rw [List.append_assoc] at hle
      exact (whole_authHello json).first hle hf.within hwhole
    · rintro rfl
      exact (whole_authProof json x.mac).next hle hf.within hwhole

/-- The frame that the consumer waits for is the one that the provider says next. -/
theorem hears_provider (hp : ProviderAt x json far.session.phase said' heard')
    (hn : near.At consumerOpened ConsumerPhase.waits said heard there back)
    (hf : far.At providerOpened ProviderPhase.waits said' heard' back there)
    (hwhole : wanted near.session.acc = 0) :
    (heard = [] → near.session.acc = wireBytes json [.authNonce x.nonce]) ∧
      (heard = wireBytes json [.authNonce x.nonce] →
        near.session.acc = wireBytes json [.authOk] ∨
          near.session.acc = wireBytes json [badProof]) := by
  have hle : heard ++ near.session.acc <+: said' ++ far.sent :=
    (List.prefix_append _ _).trans (heard_within hn hf)
  have hnonce : ∀ rest, heard = [] →
      heard ++ near.session.acc <+: wireBytes json [.authNonce x.nonce] ++ rest →
      near.session.acc = wireBytes json [.authNonce x.nonce] := by
    rintro rest rfl h
    exact (whole_authNonce json x.nonce).first h hn.within hwhole
  rcases hp.said_cases with ⟨hclosed, hsaid⟩ | ⟨-, -, rfl⟩
  · rw [(hf.closed hclosed).1, List.append_nil] at hle
    rcases hsaid with rfl | rfl | rfl
    · obtain ⟨rfl, -⟩ := List.append_eq_nil_iff.1 (List.prefix_nil.1 hle)
      exact absurd hwhole (not_whole_of_silence hle)
    · refine ⟨fun hnil => hnonce [] hnil (by rwa [List.append_nil]), ?_⟩
      rintro rfl
      exact absurd hwhole (not_whole_of_silence hle)
    · refine ⟨fun hnil => hnonce _ hnil hle, ?_⟩
      rintro rfl
      rw [← List.append_nil (_ ++ wireBytes json [badProof])] at hle
      exact .inr ((whole_badProof json).next hle hn.within hwhole)
  · refine ⟨fun hnil => hnonce _ hnil (by rwa [← List.append_assoc]), ?_⟩
    rintro rfl
    exact .inl ((whole_authOk json).next hle hn.within hwhole)

/-- Nothing more is said. -/
theorem ConsumerAt.quiet {p : ConsumerPhase} (h : ConsumerAt x json p said heard) :
    ConsumerAt x json p (said ++ wireBytes json []) heard := by
  rwa [wireBytes_nil, List.append_nil]

theorem ProviderAt.quiet {p : ProviderPhase Bytes32} (h : ProviderAt x json p said heard) :
    ProviderAt x json p (said ++ wireBytes json []) heard := by
  rwa [wireBytes_nil, List.append_nil]

/-- **The consumer turns** as the provider's frames say. -/
theorem consumer_turns {t : Turn}
    (hm : EndMove json consumerOpened ConsumerPhase.waits (consumerTurn x) near (.moves t) near')
    (hc : ConsumerAt x json near.session.phase said heard)
    (hp : ProviderAt x json far.session.phase said' heard')
    (hn : near.At consumerOpened ConsumerPhase.waits said heard there back)
    (hf : far.At providerOpened ProviderPhase.waits said' heard' back there) :
    ∃ said heard, ConsumerAt x json near'.session.phase said heard ∧
      near'.At consumerOpened ConsumerPhase.waits said heard there back := by
  obtain ⟨ok, input, hwaits, hsession, hinput, hat⟩ := hn.turns waits_of_consumerOpened hm
  rw [hsession] at hat ⊢
  refine ⟨_, _, ?_, hat⟩
  generalize hphase : near.session.phase = p at hc hwaits
  have hhears := fun hwhole => hears_provider hp hn hf hwhole
  cases hc with
  | awaitNonce =>
    rcases hinput with rfl | ⟨hwhole, rfl⟩
    · exact .unproved
    · rw [(hhears hwhole).1 rfl, (whole_authNonce json x.nonce).received]
      exact .awaitVerdict
  | awaitVerdict =>
    rcases hinput with rfl | ⟨hwhole, rfl⟩
    · exact ConsumerAt.proved.quiet
    · rcases (hhears hwhole).2 rfl with hok | hbad
      · rw [hok, (whole_authOk json).received]
        exact ConsumerAt.connected.quiet
      · rw [hbad, (whole_badProof json).received]
        exact ConsumerAt.proved.quiet
  | _ => cases hwaits

theorem providerTurn_eq (ok : Bool) (phase : ProviderPhase Bytes32) (input : Input Bytes32) :
    providerTurn x ok phase input =
      providerHandshake x.serving x.hmac x.provider x.nonce ok phase input := by
  unfold providerTurn Provider.handle
  cases x.serving <;> rfl

/-- **The provider turns** as the consumer's frames say. -/
theorem provider_turns {t : Turn}
    (hm : EndMove json providerOpened ProviderPhase.waits (providerTurn x) far (.moves t) far')
    (hc : ConsumerAt x json near.session.phase said heard)
    (hp : ProviderAt x json far.session.phase said' heard')
    (hn : near.At consumerOpened ConsumerPhase.waits said heard there back)
    (hf : far.At providerOpened ProviderPhase.waits said' heard' back there) :
    ∃ said heard, ProviderAt x json far'.session.phase said heard ∧
      far'.At providerOpened ProviderPhase.waits said heard back there := by
  obtain ⟨ok, input, hwaits, hsession, hinput, hat⟩ := hf.turns waits_of_providerOpened hm
  rw [hsession] at hat ⊢
  refine ⟨_, _, ?_, hat⟩
  generalize hphase : far.session.phase = p at hp hwaits
  have hhears := fun hwhole => hears_consumer hc hn hf hwhole
  simp only [turned, providerTurn_eq]
  cases hp with
  | awaitHello =>
    rcases hinput with rfl | ⟨hwhole, rfl⟩
    · exact ProviderAt.silent.quiet
    · rw [(hhears hwhole).1 rfl, (whole_authHello json).received]
      cases ok with
      | true => exact .awaitProof
      | false => exact .asked
  | awaitProof =>
    rcases hinput with rfl | ⟨hwhole, rfl⟩
    · exact ProviderAt.asked.quiet
    · rw [(hhears hwhole).2 rfl, (whole_authProof json x.mac).received, providerHandshake]
      by_cases hverifies : x.Verifies
      · have hverify : verifyProof x.hmac x.provider.sharedSecret x.provider.name x.nonce x.mac :=
          hverifies
        rw [if_pos hverify]
        cases ok with
        | true => exact .authenticated hverifies
        | false => exact ProviderAt.asked.quiet
      · have hverify :
            ¬verifyProof x.hmac x.provider.sharedSecret x.provider.name x.nonce x.mac := hverifies
        rw [if_neg hverify]
        exact .rejected
  | _ => cases hwaits

/-- The pipe of what a peer writes, and that of what it reads. -/
def wroteTo (a : PeerAct UInt8 Turn) (p : Pipe UInt8) : Pipe UInt8 :=
  match a with
  | .writes xs => p.write xs
  | _ => p

def tookFrom (a : PeerAct UInt8 Turn) (p : Pipe UInt8) : Pipe UInt8 :=
  match a with
  | .reads xs => p.take xs.length
  | _ => p

/-- One of the two ends moves. -/
inductive EndsMove (x : Exchange) (json : SerdeJson) (d : Ends) :
    PeerAct UInt8 Turn ⊕ PeerAct UInt8 Turn → Ends → Prop
  | near {a : PeerAct UInt8 Turn} {near : ConsumerEnd}
      (move : EndMove json consumerOpened ConsumerPhase.waits (consumerTurn x) d.near a near)
      (offers : ∀ xs, a = .reads xs → d.back.Offers xs) :
      EndsMove x json d (.inl a) ⟨near, d.far, wroteTo a d.there, tookFrom a d.back⟩
  | far {a : PeerAct UInt8 Turn} {far : ProviderEnd}
      (move : EndMove json providerOpened ProviderPhase.waits (providerTurn x) d.far a far)
      (offers : ∀ xs, a = .reads xs → d.there.Offers xs) :
      EndsMove x json d (.inr a) ⟨d.near, far, tookFrom a d.there, wroteTo a d.back⟩

theorem ends_move {a : PeerAct UInt8 Turn ⊕ PeerAct UInt8 Turn}
    (h : DirectSteps (consumerEndNext x json) (providerEndNext x json) d a d') :
    EndsMove x json d a d' := by
  have h' : d.next (consumerEndNext x json) (providerEndNext x json) a = some d' := h
  rcases a with a | a
  · obtain ⟨near, hnear, h'⟩ := Option.bind_eq_some_iff.1 h'
    have hm := end_move hnear
    cases a with
    | writes xs =>
      obtain rfl := Option.some.inj h'
      exact .near hm fun _ heq => by cases heq
    | reads xs =>
      simp only at h'
      split_ifs at h' with hoffers
      obtain rfl := Option.some.inj h'
      refine .near hm fun ys heq => ?_
      obtain rfl := PeerAct.reads.inj heq
      exact hoffers
    | moves t =>
      obtain rfl := Option.some.inj h'
      exact .near hm fun _ heq => by cases heq
  · obtain ⟨far, hfar, h'⟩ := Option.bind_eq_some_iff.1 h'
    have hm := end_move hfar
    cases a with
    | writes xs =>
      obtain rfl := Option.some.inj h'
      exact .far hm fun _ heq => by cases heq
    | reads xs =>
      simp only at h'
      split_ifs at h' with hoffers
      obtain rfl := Option.some.inj h'
      refine .far hm fun ys heq => ?_
      obtain rfl := PeerAct.reads.inj heq
      exact hoffers
    | moves t =>
      obtain rfl := Option.some.inj h'
      exact .far hm fun _ heq => by cases heq

/-- **Every step keeps the table.** -/
theorem handing_step {a : PeerAct UInt8 Turn ⊕ PeerAct UInt8 Turn}
    (h : DirectSteps (consumerEndNext x json) (providerEndNext x json) d a d')
    (hd : Handing x json d) : Handing x json d' := by
  obtain ⟨⟨said, heard, hc, hn⟩, said', heard', hp, hf⟩ := hd
  cases ends_move h with
  | @near a near move offers =>
    cases a with
    | writes xs =>
      obtain ⟨hat, hphase⟩ := hn.writes move
      exact ⟨⟨said, heard, hphase ▸ hc, hat⟩, said', heard', hp, hf.write_other xs⟩
    | reads xs =>
      obtain ⟨hat, hphase⟩ := hn.reads waits_of_consumerOpened move (offers xs rfl)
      exact ⟨⟨said, heard, hphase ▸ hc, hat⟩, said', heard', hp, hf.take_other _⟩
    | moves t => exact ⟨consumer_turns move hc hp hn hf, said', heard', hp, hf⟩
  | @far a far move offers =>
    cases a with
    | writes xs =>
      obtain ⟨hat, hphase⟩ := hf.writes move
      exact ⟨⟨said, heard, hc, hn.write_other xs⟩, said', heard', hphase ▸ hp, hat⟩
    | reads xs =>
      obtain ⟨hat, hphase⟩ := hf.reads waits_of_providerOpened move (offers xs rfl)
      exact ⟨⟨said, heard, hc, hn.take_other _⟩, said', heard', hphase ▸ hp, hat⟩
    | moves t => exact ⟨⟨said, heard, hc, hn⟩, provider_turns move hc hp hn hf⟩

/-! ## What is handed over -/

/-- The tunnel's bytes are the tunnel's, and a dial that has returned has the provider's consent. -/
structure Clean (x : Exchange) (d : Ends) : Prop where
  request : d.far.got <+: d.near.sent
  reply : d.near.got <+: d.far.sent
  accepted : providerOpened d.far.session.phase → x.Verifies
  connected : d.near.session.phase = .connected →
    d.far.session.phase = .authenticated x.nonce x.mac x.serving ∧
      d.far.got ++ d.there.pending = d.near.sent ∧ d.near.got ++ d.back.pending = d.far.sent

/-- When one end has heard all that the other has said, the stream is the tunnel's. -/
theorem pending_tunnel {φ ψ : Type} {opened waits : φ → Bool} {opened' waits' : ψ → Bool}
    {e : End φ} {f : End ψ} {mine theirs : Pipe UInt8}
    (he : e.At opened waits said heard mine theirs)
    (hf : f.At opened' waits' said' said theirs mine) (hacc : f.session.acc = []) :
    f.got ++ mine.pending = e.sent := by
  have hwritten : said ++ (f.got ++ mine.pending ++ e.session.out) = said ++ e.sent := by
    rw [← he.said]
    conv_rhs => rw [← List.take_append_drop mine.read mine.written]
    rw [hf.heard, hacc, List.append_nil, Pipe.pending]
    simp only [List.append_assoc]
  have hsent := List.append_cancel_left hwritten
  by_cases hnone : e.sent = []
  · rw [hnone] at hsent ⊢
    exact (List.append_eq_nil_iff.1 hsent).1
  · rwa [he.flushed hnone, List.append_nil] at hsent

/-- A frame and what follows it does not fit into another one. -/
theorem not_prefix_of_whole {b b' rest : Bytes} {m m' : Message Bytes32} (h : Whole json b m)
    (h' : Whole json b' m') (hne : m ≠ m') : ¬heard ++ b ++ rest <+: heard ++ b' := by
  intro hle
  obtain ⟨f, hread, rfl⟩ := h
  obtain ⟨f', hread', rfl⟩ := h'
  rw [List.append_assoc] at hle
  have hb : b <+: b' :=
    (List.prefix_append b rest).trans ((List.prefix_append_right_inj heard).1 hle)
  obtain rfl := Frame.readFrom_unique hread hread' hb List.prefix_rfl
  rw [hread] at hread'
  cases hread'
  exact hne rfl

/-- The provider has heard the proof, so the consumer has said it. -/
theorem said_of_accepted (hc : ConsumerAt x json near.session.phase said heard)
    (hn : near.At consumerOpened ConsumerPhase.waits said heard there back)
    (hf : far.At providerOpened ProviderPhase.waits said'
      (wireBytes json [.authHello] ++ wireBytes json [.authProof x.mac]) back there) :
    said = wireBytes json [.authHello] ++ wireBytes json [.authProof x.mac] := by
  rcases hc.said_cases with ⟨rfl, hclosed⟩ | hsaid
  · have hle := (heard_within hf hn).length_le
    have hne := List.length_pos_iff.2 (whole_authProof json x.mac).ne_nil
    rw [(hn.closed hclosed).1] at hle
    simp only [List.length_append, List.length_nil] at hle
    omega
  · exact hsaid

/-- The consumer has heard the consent, so the provider has given it. -/
theorem accepted_of_connected (hp : ProviderAt x json far.session.phase said' heard')
    (hn : near.At consumerOpened ConsumerPhase.waits said
      (wireBytes json [.authNonce x.nonce] ++ wireBytes json [.authOk]) there back)
    (hf : far.At providerOpened ProviderPhase.waits said' heard' back there) :
    far.session.phase = .authenticated x.nonce x.mac x.serving ∧
      said' = wireBytes json [.authNonce x.nonce] ++ wireBytes json [.authOk] := by
  rcases hp.said_cases with ⟨hclosed, hsaid⟩ | ⟨hphase, -, hsaid⟩
  · exfalso
    have hle := heard_within hn hf
    rw [(hf.closed hclosed).1, List.append_nil] at hle
    have hlen := hle.length_le
    have hnonce := List.length_pos_iff.2 (whole_authNonce json x.nonce).ne_nil
    have hok := List.length_pos_iff.2 (whole_authOk json).ne_nil
    rcases hsaid with rfl | rfl | rfl
    · simp only [List.length_append, List.length_nil] at hlen
      omega
    · simp only [List.length_append] at hlen
      omega
    · rw [List.append_assoc] at hle
      exact not_prefix_of_whole (whole_authOk json) (whole_badProof json) (by simp [badProof]) hle
  · exact ⟨hphase, hsaid⟩

theorem eq_connected {p : ConsumerPhase} (h : consumerOpened p) : p = .connected := by
  cases p <;> first | rfl | cases h

/-- What is read of a stream that is the tunnel's was written by the tunnel. -/
theorem tunnel_prefix {φ ψ : Type} {opened waits : φ → Bool} {opened' waits' : ψ → Bool}
    {e : End φ} {f : End ψ} {mine theirs : Pipe UInt8}
    (he : e.At opened waits said heard mine theirs)
    (hf : f.At opened' waits' said' heard' theirs mine)
    (hopen : opened' f.session.phase → heard' = said ∧ f.session.acc = []) : f.got <+: e.sent := by
  by_cases h : opened' f.session.phase
  · obtain ⟨rfl, hacc⟩ := hopen h
    have hle := heard_within hf he
    rw [hacc, List.append_nil] at hle
    exact (List.prefix_append_right_inj _).1 hle
  · rw [(hf.closed (by simpa using h)).2]
    exact List.nil_prefix

theorem clean_of_handing (hd : Handing x json d) : Clean x d := by
  obtain ⟨⟨said, heard, hc, hn⟩, said', heard', hp, hf⟩ := hd
  have hconnected : d.near.session.phase = .connected →
      d.far.session.phase = .authenticated x.nonce x.mac x.serving ∧ heard = said' ∧
        d.near.session.acc = [] := by
    intro hphase
    have hacc := hn.clear (by rw [hphase]; rfl)
    rw [hphase] at hc
    cases hc with
    | connected =>
      obtain ⟨hfar, hsaid⟩ := accepted_of_connected hp hn hf
      exact ⟨hfar, hsaid.symm, hacc⟩
  have haccepted : providerOpened d.far.session.phase →
      x.Verifies ∧ heard' = said ∧ d.far.session.acc = [] := by
    intro hopen
    have hacc := hf.clear (waits_of_providerOpened _ hopen)
    generalize hphase : d.far.session.phase = p at hp hopen
    cases hp with
    | authenticated verifies => exact ⟨verifies, (said_of_accepted hc hn hf).symm, hacc⟩
    | _ => cases hopen
  refine ⟨?_, ?_, fun hopen => (haccepted hopen).1, fun hphase => ?_⟩
  · exact tunnel_prefix hn hf fun hopen => (haccepted hopen).2
  · exact tunnel_prefix hf hn fun hopen => (hconnected (eq_connected hopen)).2
  · obtain ⟨hfar, rfl, hacc⟩ := hconnected hphase
    obtain ⟨-, rfl, hacc'⟩ := haccepted (by rw [hfar]; rfl)
    exact ⟨hfar, pending_tunnel hn hf hacc', pending_tunnel hf hn hacc⟩

end Steps

/-! ## Both ways to dial -/

/-- `dial_direct` and then its tunnel, with its stream to the provider. -/
def directTunnel (x : Exchange) (json : SerdeJson) : Ends :=
  ⟨⟨dialStart json x.consumer, [], []⟩, ⟨providerStart, [], []⟩, .empty, .empty⟩

/-- `dial_relay` and then its tunnel, with its stream to the relay. -/
def relayTunnel (x : Exchange) (site : Site) (target : EndpointId) :
    Conversation ConsumerEnd ProviderEnd :=
  ⟨relayOpening site x.consumer target, ⟨dialStart site.json x.consumer, [], []⟩,
    ⟨providerStart, [], []⟩, .init⟩

/-- Without the relay, the one is the other. -/
theorem direct_relayTunnel (x : Exchange) (site : Site) (target : EndpointId) :
    (relayTunnel x site target).direct (relayOpening site x.consumer target) =
      directTunnel x site.json := by
  simp [Conversation.direct, relayTunnel, directTunnel, Stream.init, Copying.start, Pipe.empty]

theorem inv_relayTunnel (x : Exchange) (site : Site) (target : EndpointId) :
    (relayTunnel x site target).Inv site (relayOpening site x.consumer target) :=
  ⟨stream_inv_init site, List.prefix_rfl, fun _ => rfl⟩

theorem live_init : Stream.init.Live :=
  ⟨⟨fun d => by cases d <;> exact ⟨[], false, rfl⟩, fun d => by cases d <;> rfl⟩, .inl ⟨[], rfl⟩⟩

theorem handing_start (x : Exchange) (json : SerdeJson) : Handing x json (directTunnel x json) := by
  refine ⟨⟨_, _, .awaitNonce, ?_⟩, _, _, .awaitHello, ?_⟩
  · exact ⟨(List.append_nil _).symm, fun h => absurd rfl h, Nat.le_refl _, rfl, Nat.zero_le _,
      fun _ => ⟨rfl, rfl⟩, fun h => by cases h⟩
  · exact ⟨rfl, fun h => absurd rfl h, Nat.le_refl _, rfl, Nat.zero_le _, fun _ => ⟨rfl, rfl⟩,
      fun h => by cases h⟩

theorem handing_run {x : Exchange} {json : SerdeJson}
    {as : List (PeerAct UInt8 Turn ⊕ PeerAct UInt8 Turn)} {d : Ends}
    (hrun : Run (DirectSteps (consumerEndNext x json) (providerEndNext x json))
      (directTunnel x json) as d) : Handing x json d :=
  hrun.invariant (P := Handing x json) (fun _ _ _ => handing_step) (handing_start x json)

/-- **From the handshake to the tunnel.** On a direct connection, however the streams cut the bytes
up and whatever fails: what is read at one end of the tunnel is a prefix of what was written at the
other, without a byte of the handshake and without losing one to it. A provider that has accepted
has checked the consumer's proof. And when the dial has returned, the provider has accepted, and
what is on the streams is what the tunnel has written and not yet read. -/
theorem direct_handover {x : Exchange} {json : SerdeJson}
    {as : List (PeerAct UInt8 Turn ⊕ PeerAct UInt8 Turn)} {d : Ends}
    (hrun : Run (DirectSteps (consumerEndNext x json) (providerEndNext x json))
      (directTunnel x json) as d) : Clean x d :=
  clean_of_handing (handing_run hrun)

/-- Carol's handshake with Alice, and then two bytes of the tunnel. -/
def webTunnelTalk : List (PeerAct UInt8 Turn ⊕ PeerAct UInt8 Turn) :=
  webTalk ++ [.inl (.writes [104, 105]), .inr (.reads [104]), .inr (.reads [105])]

theorem exec_webTunnel : ((exec (Direct.next (consumerEndNext webExchange webSite.json)
    (providerEndNext webExchange webSite.json)) (directTunnel webExchange webSite.json)
      webTunnelTalk).map fun d => (d.near.session.phase, d.far.got)) =
        some (.connected, [104, 105]) := by
  decide +kernel

theorem direct_handover_web : ∃ d, Run (DirectSteps (consumerEndNext webExchange webSite.json)
    (providerEndNext webExchange webSite.json)) (directTunnel webExchange webSite.json)
      webTunnelTalk d ∧ d.far.got = [104, 105] ∧ [104, 105] <+: d.near.sent ∧
        webExchange.Verifies := by
  obtain ⟨d, hd, h⟩ := Option.map_eq_some_iff.1 exec_webTunnel
  obtain ⟨hphase, hgot⟩ := Prod.mk.inj h
  have hrun := run_of_exec hd
  have hclean := direct_handover hrun
  refine ⟨d, hrun, hgot, hgot ▸ hclean.request, hclean.accepted ?_⟩
  rw [(hclean.connected hphase).1]
  rfl

/-- **The same through the relay**, for every `DataOpen` that can be written: also the bytes of
`DataOpen` do not get into the tunnel. -/
theorem relay_handover {x : Exchange} {site : Site} {target : EndpointId}
    (hwrite : (Frame.writeTo site.json (relayFrame site x.consumer target) ⟨[], none⟩).1 = .ok ())
    {es : List (TalkEvent Turn Turn)} {v : Conversation ConsumerEnd ProviderEnd}
    (hrun : Run (TalkSteps site (consumerEndNext x site.json) (providerEndNext x site.json))
      (relayTunnel x site target) es v) :
    Clean x (v.direct (relayOpening site x.consumer target)) := by
  have hframe := readFrom_relayOpening site x.consumer target hwrite
  obtain ⟨as, has⟩ := direct_of_run hframe hrun (inv_relayTunnel x site target)
  rw [direct_relayTunnel] at has
  exact clean_of_handing (handing_run has)

theorem relay_handover_web : ∃ es v,
    Run (TalkSteps webSite (consumerEndNext webExchange webSite.json)
      (providerEndNext webExchange webSite.json)) (relayTunnel webExchange webSite alice) es v ∧
      v.provider.got = [104, 105] ∧ [104, 105] <+: v.consumer.sent := by
  have hwrite : (Frame.writeTo webSite.json (relayFrame webSite webExchange.consumer alice)
      ⟨[], none⟩).1 = .ok () := by
    decide +kernel
  have hadmits : webSite.handler.acceptStream webSite.iroh webSite.state webSite.seen webSite.remote
      (.ok (relayFrame webSite webExchange.consumer alice)) = .ok ⟨alice, "web", none⟩ := by
    decide
  have hreaches : runRelayDial ⟨alice, "web", none⟩ = .ok (alice, utf8 "meshly-core/web") := by
    decide
  obtain ⟨d, hd, h⟩ := Option.map_eq_some_iff.1 exec_webTunnel
  obtain ⟨-, hgot⟩ := Prod.mk.inj h
  -- What goes on on the direct connection goes on through the relay.
  have hdirect := run_of_exec hd
  rw [← direct_relayTunnel webExchange webSite alice] at hdirect
  obtain ⟨es, v, hrun, hv⟩ := run_of_direct
    (readFrom_relayOpening webSite webExchange.consumer alice hwrite) hadmits ⟨_, hreaches⟩
    hdirect (inv_relayTunnel webExchange webSite alice) live_init
  have hclean := relay_handover hwrite hrun
  rw [hv] at hclean
  subst hv
  exact ⟨es, v, hrun, hgot, hgot ▸ hclean.request⟩

end MeshlyCore.Relay
