import MeshlyCore.Relay.Handover

/-!
# The handshake comes to an end

Each side of the handshake waits for the other's next frame before it goes on. The consumer speaks
first, with an empty `AuthHello`, and whoever waits is owed a frame that the other side has written
or is about to write: the two never wait for each other.

A provider that refuses a proof writes `AuthErr`, and returns: that drops its connection, and the
frame may be lost with it.

**Theorem (`handshake_completes`).** While nothing fails, the handshake on a direct connection comes
to its end after a bounded number of steps, however the streams cut the bytes up and whoever goes
first; and then both sides know what the proof was worth.

**Theorem (`relay_completes`).** Through the relay, a consumer whose proof verifies can get to its
provider from wherever the handshake has got to while the streams hold. One whose proof does not
may wait for ever: the relay joins its copies, and the other one waits for the consumer.
-/

namespace MeshlyCore.Relay

open Streams Machine Protocol Handshake Control
open Protocol.Frame (readFrom frameLength wanted)

/-! ## Without faults -/

/-- No stream is lost, and a write goes through. -/
def Faultless : PeerAct UInt8 Turn → Prop
  | .moves (.frame writeOk) => writeOk
  | .moves (.lost _) => False
  | _ => True

/-- `handle` has returned, and dropped the connection with what is still on its way in it. -/
def Dropped (provider : ProviderEnd) : Prop :=
  provider.session.phase = .closed ∧ provider.session.out = []

/-- Neither side meets a fault: the consumer loses its stream at most because the provider has
dropped it. -/
def Unfailing (d : Ends) : PeerAct UInt8 Turn ⊕ PeerAct UInt8 Turn → Prop
  | .inl a => Faultless a ∨ ((∃ ok, a = .moves (.lost ok)) ∧ Dropped d.far)
  | .inr a => Faultless a

/-- The stream of the end that moves is not handed over yet. -/
def Greeting (d : Ends) : PeerAct UInt8 Turn ⊕ PeerAct UInt8 Turn → Prop
  | .inl _ => ¬(consumerOpened d.near.session.phase ∧ d.near.session.out = [])
  | .inr _ => ¬(providerOpened d.far.session.phase ∧ d.far.session.out = [])

/-- A step of the handshake. -/
def Greets (d : Ends) (a : PeerAct UInt8 Turn ⊕ PeerAct UInt8 Turn) : Prop :=
  Unfailing d a ∧ Greeting d a

abbrev GreetSteps (x : Exchange) (json : SerdeJson) :=
  Guarded Greets (DirectSteps (consumerEndNext x json) (providerEndNext x json))

/-- The handshake can do nothing more. -/
def GreetsNoMore (x : Exchange) (json : SerdeJson) (d : Ends) : Prop :=
  ∀ a d', ¬GreetSteps x json d a d'

/-- What the consumer is told of a proof that does not verify. -/
def refuted : DialError := .rejected authErrBadProof "bad HMAC proof"

/-- Both sides know what the proof is worth. A consumer that has lost its stream after it has sent
the proof takes that for a refusal, too. -/
def Agreed (x : Exchange) (consumer : ConsumerPhase) (provider : ProviderPhase Bytes32) : Prop :=
  (x.Verifies ∧ consumer = .connected ∧ provider = .authenticated x.nonce x.mac x.serving) ∨
    (¬x.Verifies ∧ (consumer = .failed refuted ∨ consumer = .failed .lostAfterProof) ∧
      provider = .closed)

/-! ## The lengths of the frames -/

section Lengths

variable (json : SerdeJson)

theorem length_frameBytes (t : Tag) (payload : Bytes) :
    (Frame.frameBytes t payload).length = 3 + payload.length := by
  simp [Frame.frameBytes, Nat.add_comm, Nat.add_left_comm]

@[simp] theorem length_authHello : (wireBytes json [.authHello]).length = 3 := by
  have h : wireBytes json [.authHello] = _ := wireBytes_single (f := .authHello) rfl rfl (by decide)
  rw [h, length_frameBytes]
  rfl

@[simp] theorem length_authOk : (wireBytes json [.authOk]).length = 3 := by
  have h : wireBytes json [.authOk] = _ := wireBytes_single (f := .authOk) rfl rfl (by decide)
  rw [h, length_frameBytes]
  rfl

@[simp] theorem length_authNonce (nonce : Bytes32) :
    (wireBytes json [.authNonce nonce]).length = 35 := by
  have h : wireBytes json [.authNonce nonce] = _ :=
    wireBytes_single (f := .authNonce nonce) rfl rfl (nonce.property.le.trans (by decide))
  rw [h, length_frameBytes, nonce.property]

@[simp] theorem length_authProof (mac : Bytes32) :
    (wireBytes json [.authProof mac]).length = 35 := by
  have h : wireBytes json [.authProof mac] = _ :=
    wireBytes_single (f := .authProof mac) rfl rfl (mac.property.le.trans (by decide))
  rw [h, length_frameBytes, mac.property]

@[simp] theorem length_badProof : (wireBytes json [badProof]).length = 18 := by
  have h : wireBytes json [badProof] = _ :=
    wireBytes_single (f := .authErr authErrBadProof "bad HMAC proof") rfl rfl (by decide)
  rw [h, length_frameBytes]
  rfl

end Lengths

section Frames

variable {json : SerdeJson} {b acc rest : Bytes} {m : Message Bytes32}

/-- A session does not read past the frame that comes first. -/
theorem Whole.length_le (h : Whole json b m) (hle : acc <+: b ++ rest)
    (hwithin : acc.length ≤ frameLength acc) : acc.length ≤ b.length := by
  obtain ⟨f, hread, -⟩ := h
  rcases List.prefix_or_prefix_of_prefix hle (List.prefix_append b rest) with hpart | hpart
  · exact hpart.length_le
  · obtain ⟨xs, rfl⟩ := hpart
    rw [Frame.frameLength_append (Frame.three_le_of_readFrom hread)] at hwithin
    exact hwithin.trans (Frame.readFrom_eq_ok hread).1

/-- Nothing is missing of a frame that is there. -/
theorem Whole.wanted_append (h : Whole json b m) (rest : Bytes) : wanted (b ++ rest) = 0 := by
  obtain ⟨f, hread, -⟩ := h
  have hsize : frameLength b ≤ b.length := (Frame.readFrom_eq_ok hread).1
  rw [wanted, Frame.frameLength_append (Frame.three_le_of_readFrom hread), List.length_append]
  omega

end Frames

/-! ## What is left to do -/

/-- The bytes to write and to read, and the turns to take, at most. -/
def ConsumerPhase.left : ConsumerPhase → Bytes → Bytes → ℕ
  | .awaitNonce, acc, out => out.length + (35 - acc.length) + 55
  | .awaitVerdict, acc, out => out.length + (18 - acc.length) + 1
  | _, _, out => out.length

def ProviderPhase.left : ProviderPhase Bytes32 → Bytes → Bytes → ℕ
  | .awaitHello, acc, out => out.length + (3 - acc.length) + 90
  | .awaitProof _, acc, out => out.length + (35 - acc.length) + 19
  | _, _, out => out.length

def Ends.left (d : Ends) : ℕ :=
  ConsumerPhase.left d.near.session.phase d.near.session.acc d.near.session.out +
    ProviderPhase.left d.far.session.phase d.far.session.acc d.far.session.out

section Steps

variable {x : Exchange} {json : SerdeJson} {near near' : ConsumerEnd} {far far' : ProviderEnd}
  {there back : Pipe UInt8} {said heard said' heard' : Bytes} {d d' : Ends}

/-- The consumer has no more than the frame it waits for. -/
theorem consumer_acc_le (hc : ConsumerAt x json near.session.phase said heard)
    (hp : ProviderAt x json far.session.phase said' heard')
    (hn : near.At consumerOpened ConsumerPhase.waits said heard there back)
    (hf : far.At providerOpened ProviderPhase.waits said' heard' back there) :
    (near.session.phase = .awaitNonce → near.session.acc.length ≤ 35) ∧
      (near.session.phase = .awaitVerdict → near.session.acc.length ≤ 18) := by
  have hle : heard ++ near.session.acc <+: said' ++ far.sent :=
    (List.prefix_append _ _).trans (heard_within hn hf)
  have hnonce : ∀ rest, near.session.acc <+: wireBytes json [.authNonce x.nonce] ++ rest →
      near.session.acc.length ≤ 35 := fun rest h =>
    ((whole_authNonce json x.nonce).length_le h hn.within).trans (length_authNonce _ _).le
  constructor
  · intro hphase
    rw [hphase] at hc
    cases hc with
    | awaitNonce =>
      rcases hp.said_cases with ⟨hclosed, rfl | rfl | rfl⟩ | ⟨-, -, rfl⟩
      · rw [(hf.closed hclosed).1] at hle
        have hnil : near.session.acc = [] := List.prefix_nil.1 hle
        rw [hnil]
        exact Nat.zero_le _
      · exact hnonce _ hle
      · exact hnonce _ (by rwa [List.append_assoc] at hle)
      · exact hnonce _ (by rwa [List.append_assoc] at hle)
  · intro hphase
    rw [hphase] at hc
    cases hc with
    | awaitVerdict =>
      rcases hp.said_cases with ⟨hclosed, hsaid⟩ | ⟨-, -, rfl⟩
      · rw [(hf.closed hclosed).1, List.append_nil] at hle
        have hlen := hle.length_le
        rcases hsaid with rfl | rfl | rfl <;>
          simp only [List.length_append, List.length_nil, length_authNonce, length_badProof]
            at hlen <;> omega
      · rw [List.append_assoc] at hle
        have hacc := (List.prefix_append_right_inj _).1 hle
        exact ((whole_authOk json).length_le hacc hn.within).trans (by simp)

/-- And so has the provider. -/
theorem provider_acc_le (hc : ConsumerAt x json near.session.phase said heard)
    (hp : ProviderAt x json far.session.phase said' heard')
    (hn : near.At consumerOpened ConsumerPhase.waits said heard there back)
    (hf : far.At providerOpened ProviderPhase.waits said' heard' back there) :
    (far.session.phase = .awaitHello → far.session.acc.length ≤ 3) ∧
      (∀ nonce, far.session.phase = .awaitProof nonce → far.session.acc.length ≤ 35) := by
  have hle : heard' ++ far.session.acc <+: said ++ near.sent :=
    (List.prefix_append _ _).trans (heard_within hf hn)
  have hhello : ∀ rest, far.session.acc <+: wireBytes json [.authHello] ++ rest →
      far.session.acc.length ≤ 3 := fun rest h =>
    ((whole_authHello json).length_le h hf.within).trans (length_authHello _).le
  constructor
  · intro hphase
    rw [hphase] at hp
    cases hp with
    | awaitHello =>
      rcases hc.said_cases with ⟨rfl, hclosed⟩ | rfl
      · exact hhello _ hle
      · exact hhello _ (by rwa [List.append_assoc] at hle)
  · intro nonce hphase
    rw [hphase] at hp
    cases hp with
    | awaitProof =>
      rcases hc.said_cases with ⟨rfl, hclosed⟩ | rfl
      · rw [(hn.closed hclosed).1, List.append_nil] at hle
        have hlen := hle.length_le
        simp only [List.length_append, length_authHello] at hlen
        omega
      · rw [List.append_assoc] at hle
        have hacc := (List.prefix_append_right_inj _).1 hle
        exact ((whole_authProof json x.mac).length_le hacc hf.within).trans (by simp)

/-- What a turn of the consumer leaves to do. -/
theorem left_consumerTurn {ok : Bool} {p : ConsumerPhase} (hwaits : p.waits) (input : Input Bytes32)
    (acc : Bytes) :
    ConsumerPhase.left (turned json (consumerTurn x) ok p input).phase []
      (turned json (consumerTurn x) ok p input).out < ConsumerPhase.left p acc [] := by
  cases p with
  | awaitNonce =>
    rcases input with m | _
    · cases m <;> simp [turned, dialStep, proofMessages, ConsumerPhase.left, wireBytes_nil]
    · simp [turned, dialStep, proofMessages, ConsumerPhase.left, wireBytes_nil]
  | awaitVerdict =>
    rcases input with m | _
    · cases m <;> simp [turned, dialStep, proofMessages, ConsumerPhase.left, wireBytes_nil]
    · simp [turned, dialStep, proofMessages, ConsumerPhase.left, wireBytes_nil]
  | _ => cases hwaits

/-- What a turn of the provider does. -/
theorem left_providerTurn {ok : Bool} {p : ProviderPhase Bytes32} (hwaits : p.waits)
    (input : Input Bytes32) (acc : Bytes) :
    ProviderPhase.left (turned json (providerTurn x) ok p input).phase []
      (turned json (providerTurn x) ok p input).out < ProviderPhase.left p acc [] := by
  simp only [turned, providerTurn_eq]
  cases p with
  | awaitHello =>
    rcases input with m | _
    · cases m <;> cases ok <;>
        simp [providerHandshake, ProviderPhase.left, wireBytes_nil]
    · simp [providerHandshake, ProviderPhase.left, wireBytes_nil]
  | awaitProof nonce =>
    rcases input with m | _
    · cases m with
      | authProof mac =>
        simp only [providerHandshake]
        have hbad := length_badProof json
        unfold badProof at hbad
        split_ifs <;> simp [ProviderPhase.left, wireBytes_nil, hbad]
      | _ => simp [providerHandshake, ProviderPhase.left, wireBytes_nil]
    · simp [providerHandshake, ProviderPhase.left, wireBytes_nil]
  | _ => cases hwaits

/-- Writing takes from what is left. -/
theorem left_consumerWrites {xs rest : Bytes} (ne : xs ≠ []) (acc : Bytes) (p : ConsumerPhase) :
    ConsumerPhase.left p acc rest < ConsumerPhase.left p acc (xs ++ rest) := by
  have hpos := List.length_pos_iff.2 ne
  cases p <;> simp only [ConsumerPhase.left, List.length_append] <;> omega

theorem left_providerWrites {xs rest : Bytes} (ne : xs ≠ []) (acc : Bytes)
    (p : ProviderPhase Bytes32) :
    ProviderPhase.left p acc rest < ProviderPhase.left p acc (xs ++ rest) := by
  have hpos := List.length_pos_iff.2 ne
  cases p <;> simp only [ProviderPhase.left, List.length_append] <;> omega

/-- A move of the handshake leaves an end less to do, when what it reads and its turns do. -/
theorem EndMove.leaves_less {φ : Type} {opened waits : φ → Bool}
    {turn : Bool → φ → Input Bytes32 → φ × List (Message Bytes32)} {e e' : End φ}
    {a : PeerAct UInt8 Turn} {left : φ → Bytes → Bytes → ℕ}
    (hm : EndMove json opened waits turn e a e')
    (hgreets : ¬(opened e.session.phase ∧ e.session.out = []))
    (hwrites : ∀ {xs rest : Bytes}, xs ≠ [] → ∀ acc p, left p acc rest < left p acc (xs ++ rest))
    (hreads : ∀ xs, xs ≠ [] → waits e.session.phase →
      e' = { e with session := { e.session with acc := e.session.acc ++ xs } } →
      left e.session.phase (e.session.acc ++ xs) e.session.out <
        left e.session.phase e.session.acc e.session.out)
    (hturns : waits e.session.phase → ∀ ok input acc,
      left (turned json turn ok e.session.phase input).phase []
          (turned json turn ok e.session.phase input).out < left e.session.phase acc []) :
    left e'.session.phase e'.session.acc e'.session.out <
      left e.session.phase e.session.acc e.session.out := by
  cases hm with
  | sends opens flushed => exact absurd ⟨opens, flushed⟩ hgreets
  | gets opens flushed => exact absurd ⟨opens, flushed⟩ hgreets
  | writes ne out =>
    rw [out]
    exact hwrites ne _ _
  | reads ne waiting => exact hreads _ ne waiting rfl
  | frame waiting flushed =>
    rw [flushed]
    exact hturns waiting _ _ _
  | lost waiting flushed =>
    rw [flushed]
    exact hturns waiting _ _ _

/-- **Every step of the handshake leaves less to do.** -/
theorem left_step {a : PeerAct UInt8 Turn ⊕ PeerAct UInt8 Turn} (h : GreetSteps x json d a d')
    (hd : Handing x json d) : d'.left < d.left := by
  obtain ⟨⟨said, heard, hc, hn⟩, said', heard', hp, hf⟩ := handing_step h.2 hd
  obtain ⟨⟨-, hgreets⟩, hstep⟩ := h
  cases ends_move hstep with
  | @near a near move offers =>
    refine Nat.add_lt_add_right (move.leaves_less hgreets left_consumerWrites
      (fun xs ne waiting heq => ?_) fun waiting _ => left_consumerTurn waiting) _
    subst heq
    have hpos := List.length_pos_iff.2 ne
    obtain ⟨hnonce, hverdict⟩ := consumer_acc_le hc hp hn hf
    simp only [List.length_append] at hnonce hverdict
    generalize hphase : d.near.session.phase = p at hnonce hverdict waiting
    cases p with
    | awaitNonce =>
      have hle := hnonce rfl
      simp only [ConsumerPhase.left, List.length_append]
      omega
    | awaitVerdict =>
      have hle := hverdict rfl
      simp only [ConsumerPhase.left, List.length_append]
      omega
    | _ => cases waiting
  | @far a far move offers =>
    refine Nat.add_lt_add_left (move.leaves_less hgreets left_providerWrites
      (fun xs ne waiting heq => ?_) fun waiting _ => left_providerTurn waiting) _
    subst heq
    have hpos := List.length_pos_iff.2 ne
    obtain ⟨hhello, hproof⟩ := provider_acc_le hc hp hn hf
    simp only [List.length_append] at hhello hproof
    generalize hphase : d.far.session.phase = p at hhello hproof waiting
    cases p with
    | awaitHello =>
      have hle := hhello rfl
      simp only [ProviderPhase.left, List.length_append]
      omega
    | awaitProof nonce =>
      have hle := hproof nonce rfl
      simp only [ProviderPhase.left, List.length_append]
      omega
    | _ => cases waiting

/-! ## What the two sides know -/

/-- Who has given up has a reason: the proof did not verify. -/
structure Fair (x : Exchange) (json : SerdeJson) (d : Ends) : Prop where
  failed : ∀ e, d.near.session.phase = .failed e →
    (e = refuted ∨ e = .lostAfterProof) ∧ d.far.session.phase = .closed
  closed : d.far.session.phase = .closed → ¬x.Verifies ∧
    d.near.session.phase ≠ .awaitNonce ∧ d.back.written ++ d.far.session.out =
      wireBytes json [.authNonce x.nonce] ++ wireBytes json [badProof]

/-- A consumer that is told so hears it from a provider that has closed. -/
theorem closed_of_badProof (hp : ProviderAt x json far.session.phase said' heard')
    (hn : near.At consumerOpened ConsumerPhase.waits said (wireBytes json [.authNonce x.nonce])
      there back)
    (hf : far.At providerOpened ProviderPhase.waits said' heard' back there)
    (hacc : near.session.acc = wireBytes json [badProof]) : far.session.phase = .closed := by
  have hle : wireBytes json [.authNonce x.nonce] ++ wireBytes json [badProof] <+:
      said' ++ far.sent := by
    rw [← hacc]
    exact (List.prefix_append _ _).trans (heard_within hn hf)
  have hlen := hle.length_le
  generalize hphase : far.session.phase = p at hp
  have hclosed := hf.closed
  rw [hphase] at hclosed
  cases hp with
  | awaitHello =>
    rw [(hclosed rfl).1] at hlen
    simp at hlen
  | awaitProof =>
    rw [(hclosed rfl).1] at hlen
    simp at hlen
  | authenticated =>
    exfalso
    rw [List.append_assoc] at hle
    obtain ⟨f, hread, hf'⟩ := whole_badProof json
    obtain ⟨f', hread', hf''⟩ := whole_authOk json
    have hpart := (List.prefix_append_right_inj _).1 hle
    have hsame := Frame.readFrom_unique hread hread' hpart (List.prefix_append _ _)
    rw [hsame, hread'] at hread
    cases hread
    cases hf'.symm.trans hf''
  | _ => rfl

theorem tookFrom_written (a : PeerAct UInt8 Turn) (p : Pipe UInt8) :
    (tookFrom a p).written = p.written := by
  cases a <;> rfl

/-- The consumer gives up only on a proof that did not verify. -/
theorem failed_of_move {a : PeerAct UInt8 Turn}
    (hunfailing : Faultless a ∨ ((∃ ok, a = .moves (.lost ok)) ∧ Dropped far))
    (hproved : far.session.phase = .closed → near.session.phase ≠ .awaitNonce)
    (hm : EndMove json consumerOpened ConsumerPhase.waits (consumerTurn x) near a near')
    (hc : ConsumerAt x json near.session.phase said heard)
    (hp : ProviderAt x json far.session.phase said' heard')
    (hn : near.At consumerOpened ConsumerPhase.waits said heard there back)
    (hf : far.At providerOpened ProviderPhase.waits said' heard' back there) {e : DialError}
    (hfailed : near'.session.phase = .failed e) :
    near.session.phase = .failed e ∨
      ((e = refuted ∨ e = .lostAfterProof) ∧ far.session.phase = .closed) := by
  cases hm with
  | @frame ok waiting flushed whole =>
    right
    have hhears := hears_provider hp hn hf whole
    simp only at hfailed
    generalize hphase : near.session.phase = p at hc waiting hfailed
    cases hc with
    | awaitNonce =>
      rw [hhears.1 rfl, (whole_authNonce json x.nonce).received] at hfailed
      cases hfailed
    | awaitVerdict =>
      rcases hhears.2 rfl with hok | hbad
      · rw [hok, (whole_authOk json).received] at hfailed
        cases hfailed
      · rw [hbad, (whole_badProof json).received] at hfailed
        obtain rfl := ConsumerPhase.failed.inj hfailed
        exact ⟨.inl rfl, closed_of_badProof hp hn hf hbad⟩
    | _ => cases waiting
  | lost waiting =>
    right
    obtain ⟨-, hclosed, -⟩ := hunfailing.resolve_left id
    have hnonce := hproved hclosed
    simp only at hfailed
    generalize near.session.phase = p at waiting hfailed hnonce
    cases p with
    | awaitNonce => exact absurd rfl hnonce
    | awaitVerdict =>
      obtain rfl := ConsumerPhase.failed.inj hfailed
      exact ⟨.inr rfl, hclosed⟩
    | _ => cases waiting
  | _ => exact .inl hfailed

/-- A consumer does not go back to wait for the nonce. -/
theorem proved_stays {a : PeerAct UInt8 Turn}
    (hm : EndMove json consumerOpened ConsumerPhase.waits (consumerTurn x) near a near')
    (hproved : near.session.phase ≠ .awaitNonce) : near'.session.phase ≠ .awaitNonce := by
  have hturn : ∀ ok input, (turned json (consumerTurn x) ok near.session.phase input).phase ≠
      .awaitNonce := by
    intro ok input
    simp only [turned]
    generalize near.session.phase = p at hproved
    cases p with
    | awaitNonce => exact absurd rfl hproved
    | awaitVerdict =>
      rcases input with m | _
      · cases m <;> simp [dialStep]
      · simp [dialStep]
    | _ => simp [dialStep]
  cases hm with
  | frame => exact hturn _ _
  | lost => exact hturn _ _
  | _ => exact hproved

/-- Who has been sent a proof is not waited for with the nonce. -/
theorem proved_of_heard (hc : ConsumerAt x json near.session.phase said heard)
    (hn : near.At consumerOpened ConsumerPhase.waits said heard there back)
    (hf : far.At providerOpened ProviderPhase.waits said' (wireBytes json [.authHello]) back there)
    (hacc : far.session.acc = wireBytes json [.authProof x.mac]) :
    near.session.phase ≠ .awaitNonce := by
  intro hphase
  have hle := ((List.prefix_append _ _).trans (heard_within hf hn)).length_le
  have hsent := hn.closed (by rw [hphase]; rfl)
  rw [hphase] at hc
  cases hc with
  | awaitNonce =>
    rw [hsent.1, hacc] at hle
    simp at hle

/-- The provider closes only on a proof that did not verify, and says so. -/
theorem closed_of_move {a : PeerAct UInt8 Turn} (hfaultless : Faultless a)
    (hm : EndMove json providerOpened ProviderPhase.waits (providerTurn x) far a far')
    (hc : ConsumerAt x json near.session.phase said heard)
    (hp : ProviderAt x json far.session.phase said' heard')
    (hn : near.At consumerOpened ConsumerPhase.waits said heard there back)
    (hf : far.At providerOpened ProviderPhase.waits said' heard' back there)
    (hclosed : far'.session.phase = .closed) :
    (far.session.phase = .closed ∧
      (wroteTo a back).written ++ far'.session.out = back.written ++ far.session.out) ∨
    (¬x.Verifies ∧ near.session.phase ≠ .awaitNonce ∧ (wroteTo a back).written ++ far'.session.out =
      wireBytes json [.authNonce x.nonce] ++ wireBytes json [badProof]) := by
  cases hm with
  | sends opens =>
    have hphase : far.session.phase = .closed := hclosed
    rw [hphase] at opens
    cases opens
  | writes ne out =>
    refine .inl ⟨hclosed, ?_⟩
    rw [out]
    exact List.append_assoc ..
  | gets => exact .inl ⟨hclosed, rfl⟩
  | reads => exact .inl ⟨hclosed, rfl⟩
  | lost => exact absurd hfaultless id
  | @frame ok waiting flushed whole =>
    right
    obtain rfl : ok = true := hfaultless
    have hhears := hears_consumer hc hn hf whole
    have hsaid := hf.said
    have hsent := hf.closed
    rw [flushed, List.append_nil] at hsaid
    have hproved := fun hheard : heard' = wireBytes json [.authHello] =>
      proved_of_heard hc hn (hheard ▸ hf) (hhears.2 hheard)
    simp only [turned, providerTurn_eq] at hclosed ⊢
    generalize hphase : far.session.phase = p at hp waiting hclosed hsent
    cases hp with
    | awaitHello =>
      rw [hhears.1 rfl, (whole_authHello json).received] at hclosed
      cases hclosed
    | awaitProof =>
      rw [hhears.2 rfl, (whole_authProof json x.mac).received] at hclosed ⊢
      rw [(hsent rfl).1, List.append_nil] at hsaid
      by_cases hverifies : x.Verifies
      · have hverify : verifyProof x.hmac x.provider.sharedSecret x.provider.name x.nonce x.mac :=
          hverifies
        rw [providerHandshake, if_pos hverify] at hclosed
        cases hclosed
      · have hverify :
            ¬verifyProof x.hmac x.provider.sharedSecret x.provider.name x.nonce x.mac := hverifies
        rw [providerHandshake, if_neg hverify]
        exact ⟨hverifies, hproved rfl, congrArg (· ++ wireBytes json [badProof]) hsaid⟩
    | _ => cases waiting

/-- A provider that has closed stays so. -/
theorem closed_stays {a : PeerAct UInt8 Turn}
    (hm : EndMove json providerOpened ProviderPhase.waits (providerTurn x) far a far')
    (hclosed : far.session.phase = .closed) : far'.session.phase = .closed := by
  cases hm with
  | frame waiting =>
    rw [hclosed] at waiting
    cases waiting
  | lost waiting =>
    rw [hclosed] at waiting
    cases waiting
  | _ => exact hclosed

theorem fair_step {a : PeerAct UInt8 Turn ⊕ PeerAct UInt8 Turn}
    (h : Guarded Unfailing (DirectSteps (consumerEndNext x json) (providerEndNext x json)) d a d')
    (hd : Handing x json d) (hfair : Fair x json d) : Fair x json d' := by
  obtain ⟨⟨said, heard, hc, hn⟩, said', heard', hp, hf⟩ := hd
  obtain ⟨hunfailing, hstep⟩ := h
  cases ends_move hstep with
  | @near a near move offers =>
    refine ⟨fun e he => ?_, fun hclosed => ?_⟩
    · rcases failed_of_move hunfailing (fun hclosed => (hfair.closed hclosed).2.1) move hc hp hn hf
        he with hsame | hnew
      · exact hfair.failed e hsame
      · exact hnew
    · obtain ⟨hrefuted, hproved, hbytes⟩ := hfair.closed hclosed
      rw [tookFrom_written]
      exact ⟨hrefuted, proved_stays move hproved, hbytes⟩
  | @far a far move offers =>
    refine ⟨fun e he => ?_, fun hclosed => ?_⟩
    · obtain ⟨hreason, hclosed⟩ := hfair.failed e he
      exact ⟨hreason, closed_stays move hclosed⟩
    · rcases closed_of_move hunfailing move hc hp hn hf hclosed with ⟨hsame, hbytes⟩ | hnew
      · rw [hbytes]
        exact hfair.closed hsame
      · exact hnew

theorem fair_start (x : Exchange) (json : SerdeJson) : Fair x json (directTunnel x json) :=
  ⟨fun _ h => (by cases h), fun h => (by cases h)⟩

/-! ## Nobody waits for nothing -/

section Ends

variable {φ : Type} {opened waits : φ → Bool}
  {turn : Bool → φ → Input Bytes32 → φ × List (Message Bytes32)} {e : End φ}

/-- What is to be written can be written. -/
theorem exists_writes (h : e.session.out ≠ []) :
    ∃ e', e.next opened (Peer.next json waits turn) (.writes e.session.out) = some e' := by
  simp [End.next, Peer.next, h]

theorem exists_turn (hopen : opened e.session.phase = false) (hout : e.session.out = [])
    (hwaits : waits e.session.phase) (hwhole : wanted e.session.acc = 0) :
    ∃ e', e.next opened (Peer.next json waits turn) (.moves (.frame true)) = some e' := by
  simp [End.next, Peer.next, hopen, hout, hwaits, hwhole]

theorem exists_reads (hopen : opened e.session.phase = false) (hout : e.session.out = [])
    (hwaits : waits e.session.phase) (hmissing : wanted e.session.acc ≠ 0) (b : UInt8) :
    ∃ e', e.next opened (Peer.next json waits turn) (.reads [b]) = some e' := by
  have hle : 1 ≤ wanted e.session.acc := Nat.pos_of_ne_zero hmissing
  simp [End.next, Peer.next, hopen, hout, hwaits, hle]

/-- When nothing is on its way, what one end has heard is what the other has said. -/
theorem heard_all {ψ : Type} {opened' waits' : ψ → Bool} {f : End ψ} {mine theirs : Pipe UInt8}
    (he : e.At opened waits said heard mine theirs)
    (hf : f.At opened' waits' said' heard' theirs mine) (hopen : opened e.session.phase = false)
    (hout : f.session.out = []) (hpending : theirs.pending = []) :
    heard ++ e.session.acc = said' ++ f.sent := by
  have hread := he.heard
  have hsaid := hf.said
  rw [(he.closed hopen).2, List.append_nil] at hread
  rw [hout, List.append_nil] at hsaid
  rw [← hread, ← hsaid, List.take_of_length_le (List.drop_eq_nil_iff.1 hpending)]

end Ends

/-- What an end can do, the handshake can. -/
theorem not_rest_of_near {a : PeerAct UInt8 Turn}
    (hnext : ∃ near, consumerEndNext x json d.near a = some near)
    (hoffers : ∀ xs, a = .reads xs → d.back.Offers xs) (hfaultless : Faultless a)
    (hopen : ¬(consumerOpened d.near.session.phase ∧ d.near.session.out = [])) :
    ¬GreetsNoMore x json d := by
  intro hrest
  obtain ⟨near, hnear⟩ := hnext
  have key : ∀ d', Direct.next (consumerEndNext x json) (providerEndNext x json) d (.inl a) =
      some d' → False := fun d' h => hrest (.inl a) d' ⟨⟨.inl hfaultless, hopen⟩, h⟩
  cases a with
  | reads xs => exact key _ (Direct.next_near_reads hnear (hoffers xs rfl))
  | _ => exact key _ (Option.bind_eq_some_iff.2 ⟨near, hnear, rfl⟩)

theorem not_rest_of_far {a : PeerAct UInt8 Turn}
    (hnext : ∃ far, providerEndNext x json d.far a = some far)
    (hoffers : ∀ xs, a = .reads xs → d.there.Offers xs) (hfaultless : Faultless a)
    (hopen : ¬(providerOpened d.far.session.phase ∧ d.far.session.out = [])) :
    ¬GreetsNoMore x json d := by
  intro hrest
  obtain ⟨far, hfar⟩ := hnext
  have key : ∀ d', Direct.next (consumerEndNext x json) (providerEndNext x json) d (.inr a) =
      some d' → False := fun d' h => hrest (.inr a) d' ⟨⟨hfaultless, hopen⟩, h⟩
  cases a with
  | reads xs => exact key _ (Direct.next_far_reads hfar (hoffers xs rfl))
  | _ => exact key _ (Option.bind_eq_some_iff.2 ⟨far, hfar, rfl⟩)

/-- At rest everything is written. -/
theorem flushed_of_rest (hrest : GreetsNoMore x json d) :
    d.near.session.out = [] ∧ d.far.session.out = [] := by
  constructor
  · by_contra hout
    exact not_rest_of_near (exists_writes hout) (fun _ h => (by cases h)) trivial
      (fun h => hout h.2) hrest
  · by_contra hout
    exact not_rest_of_far (exists_writes hout) (fun _ h => (by cases h)) trivial
      (fun h => hout h.2) hrest

theorem offers_head {p : Pipe UInt8} {b : UInt8} {rest : Bytes} (h : p.pending = b :: rest)
    {xs : Bytes} (hxs : PeerAct.reads (ι := Turn) [b] = .reads xs) : p.Offers xs := by
  obtain rfl := PeerAct.reads.inj hxs
  unfold Pipe.Offers
  rw [h]
  exact ⟨rest, rfl⟩

/-- An end that waits at rest has read everything, and its frame is not there. -/
theorem consumer_waits_of_rest (hrest : GreetsNoMore x json d)
    (hwaits : d.near.session.phase.waits) :
    wanted d.near.session.acc ≠ 0 ∧ d.back.pending = [] := by
  have hopen : consumerOpened d.near.session.phase = false := by
    cases hphase : d.near.session.phase <;> rw [hphase] at hwaits <;> first | rfl | cases hwaits
  have hnot : ¬(consumerOpened d.near.session.phase ∧ d.near.session.out = []) := by
    rw [hopen]
    exact fun h => Bool.false_ne_true h.1
  have hout := (flushed_of_rest hrest).1
  have hmissing : wanted d.near.session.acc ≠ 0 := fun hwhole =>
    not_rest_of_near (exists_turn hopen hout hwaits hwhole) (fun _ h => (by cases h)) rfl hnot hrest
  refine ⟨hmissing, ?_⟩
  rcases hpending : d.back.pending with _ | ⟨b, rest⟩
  · rfl
  · exact absurd hrest (not_rest_of_near (exists_reads hopen hout hwaits hmissing b)
      (fun _ => offers_head hpending) trivial hnot)

theorem provider_waits_of_rest (hrest : GreetsNoMore x json d)
    (hwaits : d.far.session.phase.waits) :
    wanted d.far.session.acc ≠ 0 ∧ d.there.pending = [] := by
  have hopen : providerOpened d.far.session.phase = false := by
    cases hphase : d.far.session.phase <;> rw [hphase] at hwaits <;> first | rfl | cases hwaits
  have hnot : ¬(providerOpened d.far.session.phase ∧ d.far.session.out = []) := by
    rw [hopen]
    exact fun h => Bool.false_ne_true h.1
  have hout := (flushed_of_rest hrest).2
  have hmissing : wanted d.far.session.acc ≠ 0 := fun hwhole =>
    not_rest_of_far (exists_turn hopen hout hwaits hwhole) (fun _ h => (by cases h)) rfl hnot hrest
  refine ⟨hmissing, ?_⟩
  rcases hpending : d.there.pending with _ | ⟨b, rest⟩
  · rfl
  · exact absurd hrest (not_rest_of_far (exists_reads hopen hout hwaits hmissing b)
      (fun _ => offers_head hpending) trivial hnot)

/-- A consumer that waits at rest has not been sent the frame it waits for. -/
theorem consumer_done_of_rest (hd : Handing x json d) (hrest : GreetsNoMore x json d) {rest : Bytes}
    (hwrote : d.back.written = wireBytes json [.authNonce x.nonce] ++ rest) :
    d.near.session.phase ≠ .awaitNonce ∧ ∀ b m, Whole json b m → ∀ rest', rest = b ++ rest' →
      d.near.session.phase ≠ .awaitVerdict := by
  obtain ⟨⟨said, heard, hc, hn⟩, said', heard', hp, hf⟩ := hd
  have hsaid := hf.said
  rw [(flushed_of_rest hrest).2, List.append_nil] at hsaid
  have hheard : d.near.session.phase.waits → consumerOpened d.near.session.phase = false →
      wanted d.near.session.acc ≠ 0 ∧
        heard ++ d.near.session.acc = wireBytes json [.authNonce x.nonce] ++ rest := by
    intro hwaits hopen
    obtain ⟨hmissing, hpending⟩ := consumer_waits_of_rest hrest hwaits
    refine ⟨hmissing, ?_⟩
    rw [heard_all hn hf hopen (flushed_of_rest hrest).2 hpending, ← hsaid, hwrote]
  constructor
  · intro hphase
    rw [hphase] at hc hheard
    cases hc with
    | awaitNonce =>
      obtain ⟨hmissing, hacc⟩ := hheard rfl rfl
      rw [List.nil_append] at hacc
      rw [hacc] at hmissing
      exact hmissing ((whole_authNonce json x.nonce).wanted_append _)
  · rintro b m hwhole rest' rfl hphase
    rw [hphase] at hc hheard
    cases hc with
    | awaitVerdict =>
      obtain ⟨hmissing, hacc⟩ := hheard rfl rfl
      rw [List.append_cancel_left hacc] at hmissing
      exact hmissing (hwhole.wanted_append _)

/-- A consumer that has not said its proof waits for the nonce, or has given up. -/
theorem ConsumerAt.proved_cases {p : ConsumerPhase} (h : ConsumerAt x json p said heard) :
    p = .awaitNonce ∨ (∃ e, p = .failed e) ∨
      said = wireBytes json [.authHello] ++ wireBytes json [.authProof x.mac] := by
  cases h with
  | awaitNonce => exact .inl rfl
  | unproved => exact .inr (.inl ⟨_, rfl⟩)
  | _ => exact .inr (.inr rfl)

/-- A provider does not wait at rest. -/
theorem provider_done_of_rest (hd : Handing x json d) (hfair : Fair x json d)
    (hrest : GreetsNoMore x json d) : d.far.session.phase.waits = false := by
  have hd' := hd
  obtain ⟨⟨said, heard, hc, hn⟩, said', heard', hp, hf⟩ := hd
  by_contra hwaits
  have hwaits' : d.far.session.phase.waits := by simpa using hwaits
  obtain ⟨hmissing, hpending⟩ := provider_waits_of_rest hrest hwaits'
  have hopen : providerOpened d.far.session.phase = false := by
    by_contra hopen
    rw [waits_of_providerOpened _ (by simpa using hopen)] at hwaits'
    cases hwaits'
  have hheard := heard_all hf hn hopen (flushed_of_rest hrest).1 hpending
  have hsaid := hf.said
  rw [(flushed_of_rest hrest).2, (hf.closed hopen).1, List.append_nil, List.append_nil] at hsaid
  generalize hphase : d.far.session.phase = p at hp hwaits'
  cases hp with
  | awaitHello =>
    rw [List.nil_append] at hheard
    rw [hheard] at hmissing
    rcases hc.said_cases with ⟨rfl, -⟩ | rfl
    · exact hmissing ((whole_authHello json).wanted_append _)
    · rw [List.append_assoc] at hmissing
      exact hmissing ((whole_authHello json).wanted_append _)
  | awaitProof =>
    have hwrote : d.back.written = wireBytes json [.authNonce x.nonce] ++ [] := by
      rw [hsaid, List.append_nil]
    have hconsumer := (consumer_done_of_rest hd' hrest hwrote).1
    rcases hc.proved_cases with hphase' | ⟨e, hphase'⟩ | rfl
    · exact hconsumer hphase'
    · rw [(hfair.failed e hphase').2] at hphase
      cases hphase
    · rw [List.append_assoc] at hheard
      rw [List.append_cancel_left hheard] at hmissing
      exact hmissing ((whole_authProof json x.mac).wanted_append _)
  | _ => cases hwaits'

/-- **At rest the two sides agree.** -/
theorem agreed_of_rest (hd : Handing x json d) (hfair : Fair x json d)
    (hrest : GreetsNoMore x json d) : Agreed x d.near.session.phase d.far.session.phase := by
  have hdone := provider_done_of_rest hd hfair hrest
  have hd' := hd
  obtain ⟨⟨said, heard, hc, hn⟩, said', heard', hp, hf⟩ := hd
  have hsaid := hf.said
  rw [(flushed_of_rest hrest).2, List.append_nil] at hsaid
  by_cases hclosed : d.far.session.phase = .closed
  · right
    obtain ⟨hrefuted, -, hbytes⟩ := hfair.closed hclosed
    rw [(flushed_of_rest hrest).2, List.append_nil] at hbytes
    obtain ⟨hnonce, hverdict⟩ := consumer_done_of_rest hd' hrest hbytes
    refine ⟨hrefuted, ?_, hclosed⟩
    cases hphase : d.near.session.phase with
    | awaitNonce => exact absurd hphase hnonce
    | awaitVerdict =>
      exact absurd hphase (hverdict _ _ (whole_badProof json) [] (List.append_nil _).symm)
    | failed e => exact (hfair.failed e hphase).1.imp (congrArg _) (congrArg _)
    | connected =>
      rw [hphase] at hc
      cases hc with
      | connected =>
        rw [(accepted_of_connected hp hn hf).1] at hclosed
        cases hclosed
  · left
    generalize hfar : d.far.session.phase = p at hp hdone hclosed
    cases hp with
    | authenticated verifies =>
      rw [List.append_assoc] at hsaid
      obtain ⟨hnonce, hverdict⟩ := consumer_done_of_rest hd' hrest hsaid
      refine ⟨verifies, ?_, rfl⟩
      cases hphase : d.near.session.phase with
      | awaitNonce => exact absurd hphase hnonce
      | awaitVerdict => exact absurd hphase (hverdict _ _ (whole_authOk json) _ rfl)
      | failed e =>
        rw [(hfair.failed e hphase).2] at hfar
        cases hfar
      | connected => rfl
    | awaitHello => cases hdone
    | awaitProof => cases hdone
    | _ => exact absurd rfl hclosed

end Steps

/-! ## Both ways to dial -/

section Runs

variable {x : Exchange} {json : SerdeJson} {d : Ends}

theorem fair_run {as : List (PeerAct UInt8 Turn ⊕ PeerAct UInt8 Turn)}
    (hrun : Run (Guarded Unfailing
      (DirectSteps (consumerEndNext x json) (providerEndNext x json))) (directTunnel x json) as d) :
    Handing x json d ∧ Fair x json d :=
  hrun.invariant (P := fun d => Handing x json d ∧ Fair x json d)
    (fun _ _ _ hs h => ⟨handing_step hs.2 h.1, fair_step hs h.1 h.2⟩)
    ⟨handing_start x json, fair_start x json⟩

/-- A step of the handshake leaves less to do, and keeps what the two sides know. -/
theorem greets_step {a : PeerAct UInt8 Turn ⊕ PeerAct UInt8 Turn} {d' : Ends}
    (h : GreetSteps x json d a d') (hd : Handing x json d ∧ Fair x json d) :
    (Handing x json d' ∧ Fair x json d') ∧ d'.left < d.left :=
  ⟨⟨handing_step h.2 hd.1, fair_step ⟨h.1.1, h.2⟩ hd.1 hd.2⟩, left_step h hd.1⟩

/-- What is to be written is not more than what is to be said. -/
theorem out_le {φ : Type} {opened waits : φ → Bool} {e : End φ} {said heard : Bytes}
    {mine theirs : Pipe UInt8} (h : e.At opened waits said heard mine theirs) :
    e.session.out.length ≤ said.length := by
  by_cases hsent : e.sent = []
  · have hlen := congrArg List.length h.said
    rw [hsent, List.append_nil, List.length_append] at hlen
    omega
  · rw [h.flushed hsent]
    exact Nat.zero_le _

theorem left_le (hd : Handing x json d) : d.left ≤ 186 := by
  obtain ⟨⟨said, heard, hc, hn⟩, said', heard', hp, hf⟩ := hd
  have hnear := out_le hn
  have hfar := out_le hf
  have hleft :
      ConsumerPhase.left d.near.session.phase d.near.session.acc d.near.session.out ≤ 93 := by
    generalize d.near.session.phase = p at hc
    cases hc <;> simp only [List.length_append, length_authHello, length_authProof] at hnear <;>
      simp only [ConsumerPhase.left] <;> omega
  have hleft' :
      ProviderPhase.left d.far.session.phase d.far.session.acc d.far.session.out ≤ 93 := by
    generalize d.far.session.phase = p at hp
    cases hp <;> simp only [List.length_append, List.length_nil, length_authNonce, length_authOk,
      length_badProof] at hfar <;> simp only [ProviderPhase.left] <;> omega
  exact Nat.add_le_add hleft hleft'

/-- The handshake can go on to its end. -/
theorem exists_agreed (hd : Handing x json d ∧ Fair x json d) :
    ∃ bs d', Run (GreetSteps x json) d bs d' ∧ GreetsNoMore x json d' ∧
      Agreed x d'.near.session.phase d'.far.session.phase := by
  obtain ⟨bs, d', hbs, hrest⟩ :
      ∃ bs d', Run (GreetSteps x json) d bs d' ∧ GreetsNoMore x json d' :=
    exists_rest_of_shrinks (fun _ _ _ hs h => greets_step hs h) d hd
  have hd' := hbs.invariant (P := fun d => Handing x json d ∧ Fair x json d)
    (fun _ _ _ hs h => (greets_step hs h).1) hd
  exact ⟨bs, d', hbs, hrest, agreed_of_rest hd'.1 hd'.2 hrest⟩

/-- **The handshake comes to its end.** Wherever a direct connection has come to without a fault,
and however much of the tunnel is on it already, the handshake takes at most 186 steps more; and
when it can take no more both sides know what the proof is worth. -/
theorem handshake_completes {as : List (PeerAct UInt8 Turn ⊕ PeerAct UInt8 Turn)}
    (hrun : Run (Guarded Unfailing
      (DirectSteps (consumerEndNext x json) (providerEndNext x json))) (directTunnel x json) as d) :
    (∀ bs d', Run (GreetSteps x json) d bs d' → bs.length ≤ 186) ∧
    (∃ bs d', Run (GreetSteps x json) d bs d' ∧ GreetsNoMore x json d') ∧
    ∀ bs d', Run (GreetSteps x json) d bs d' → GreetsNoMore x json d' →
      Agreed x d'.near.session.phase d'.far.session.phase := by
  have hd := fair_run hrun
  refine ⟨fun bs d' hbs => ?_, ?_, fun bs d' hbs hrest => ?_⟩
  · have hle := (hbs.length_le_of_shrinks (fun _ _ _ hs h => greets_step hs h) hd).2
    have := left_le hd.1
    omega
  · obtain ⟨bs, d', hbs, hrest, -⟩ := exists_agreed hd
    exact ⟨bs, d', hbs, hrest⟩
  · have hd' := hbs.invariant (P := fun d => Handing x json d ∧ Fair x json d)
      (fun _ _ _ hs h => (greets_step hs h).1) hd
    exact agreed_of_rest hd'.1 hd'.2 hrest

theorem verifies_web : webExchange.Verifies := by
  show verifyProof _ _ _ _ _ = true
  decide

/-- Carol's handshake with Alice goes on from its first steps. -/
theorem handshake_completes_web : ∃ d,
    Run (Guarded Unfailing (DirectSteps (consumerEndNext webExchange webSite.json)
      (providerEndNext webExchange webSite.json))) (directTunnel webExchange webSite.json)
      (webTalk.take 5) d ∧
    ∃ bs d', Run (GreetSteps webExchange webSite.json) d bs d' ∧
      d'.near.session.phase = .connected := by
  have hsome : (exec (Direct.next (consumerEndNext webExchange webSite.json)
      (providerEndNext webExchange webSite.json)) (directTunnel webExchange webSite.json)
        (webTalk.take 5)).isSome := by
    decide +kernel
  have hunfailing : ∀ a ∈ webTalk.take 5, ∀ u, Unfailing u a := by
    simp [webTalk, Unfailing, Faultless]
  have hrun := (run_of_exec (Option.some_get hsome).symm).guarded hunfailing
  obtain ⟨-, ⟨bs, d', hbs, hrest⟩, hagreed⟩ := handshake_completes hrun
  refine ⟨_, hrun, bs, d', hbs, ?_⟩
  rcases hagreed bs d' hbs hrest with ⟨-, hconnected, -⟩ | ⟨hrefuted, -⟩
  · exact hconnected
  · exact absurd verifies_web hrefuted

end Runs

end MeshlyCore.Relay
