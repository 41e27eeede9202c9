import MeshlyCore.Handshake.Session
import MeshlyCore.Lib.Machine

/-!
# Many sessions and an adversary

Any number of provider and consumer sessions run at once. The network belongs to the
adversary: it decides which message each session reads next, may drop, reorder, replay,
redirect and invent messages, and keeps everything that was ever sent (`wire`). Its one
limitation is the MAC: a value that is a MAC under a secret it does not hold it can only copy
from the wire.

**Theorem (`answered_of_authenticated`).** In every run, a provider session of a service whose
secret the adversary does not hold is authenticated only by a consumer of the same service with
the same secret that computed its proof over exactly that session's nonce; and no proof
authenticates two sessions.

The invariant `Inv` says what each session's phase remembers: an authenticated session holds a
proof that verifies and that, when its secret is not held, is on the wire; every proof on the
wire was computed by a consumer; nonces issued to different sessions differ. The theorem is
then injectivity of the MAC and of its unseparated input.
-/

namespace MeshlyCore.Handshake

open Machine

variable {Mac : Type}

/-! ## Worlds -/

/-- A provider session: its handler, its service, and where the handshake stands. -/
structure Provider (Mac : Type) where
  serving : Serving
  spec : ProviderSpec
  phase : ProviderPhase Mac

/-- A consumer session, with the proof it computed, if any, and the nonce it answers. -/
structure Consumer (Mac : Type) where
  spec : ConsumerSpec
  phase : ConsumerPhase
  proof : Option (Bytes32 × Mac)

structure World (Mac : Type) where
  providers : ℕ → Option (Provider Mac)
  consumers : ℕ → Option (Consumer Mac)
  /-- Everything any session has sent. -/
  wire : List (Message Mac)

def World.init : World Mac := ⟨fun _ => none, fun _ => none, []⟩

/-- The handler of a session. -/
def Provider.handle [DecidableEq Mac] (hmac : Bytes → Bytes → Mac) (P : Provider Mac)
    (fresh : Bytes32) (writeOk : Bool) (input : Input Mac) :
    ProviderPhase Mac × List (Message Mac) :=
  match P.serving with
  | .backend => exposeHandle hmac P.spec fresh writeOk P.phase input
  | .http => staticHandle hmac P.spec fresh writeOk P.phase input

/-- What happens next. -/
inductive Action (Mac : Type) where
  | accept (p : ℕ) (serving : Serving) (spec : ProviderSpec)
  | dial (c : ℕ) (spec : ConsumerSpec) (dial : Dial)
  | toProvider (p : ℕ) (input : Input Mac) (fresh : Bytes32) (writeOk : Bool)
  | toConsumer (c : ℕ) (input : Input Mac)

/-- The adversary can make a session read `input`: a MAC under a secret it does not hold must
already be on the wire. -/
def Emittable (hmac : Bytes → Bytes → Mac) (held : Set Bytes) (w : World Mac) :
    Input Mac → Prop
  | .received (.authProof mac) =>
      ∀ key msg, hmac key msg = mac → key ∉ held → Message.authProof mac ∈ w.wire
  | _ => True

/-- The messages of a consumer step. -/
def proofMessages : Option (Bytes32 × Mac) → List (Message Mac)
  | some (_, mac) => [.authProof mac]
  | none => []

/-- The steps of the world, for an adversary that holds the secrets `held`. Each session starts
once, and a nonce that is sent is new. -/
inductive Step [DecidableEq Mac] (hmac : Bytes → Bytes → Mac) (held : Set Bytes) :
    World Mac → Action Mac → World Mac → Prop
  | accept {w : World Mac} (p : ℕ) (serving : Serving) (spec : ProviderSpec) :
      w.providers p = none →
      Step hmac held w (.accept p serving spec)
        { w with providers := Function.update w.providers p (some ⟨serving, spec, .awaitHello⟩) }
  | dial {w : World Mac} (c : ℕ) (spec : ConsumerSpec) (d : Dial) :
      w.consumers c = none →
      Step hmac held w (.dial c spec d)
        { w with
          consumers := Function.update w.consumers c (some ⟨spec, .awaitNonce, none⟩)
          wire := dialOpening spec d ++ w.wire }
  | toProvider {w : World Mac} (p : ℕ) (P : Provider Mac) (input : Input Mac) (fresh : Bytes32)
      (writeOk : Bool) :
      w.providers p = some P → Emittable hmac held w input →
      (.authNonce fresh ∈ (P.handle hmac fresh writeOk input).2 →
        Message.authNonce fresh ∉ w.wire) →
      Step hmac held w (.toProvider p input fresh writeOk)
        { w with
          providers := Function.update w.providers p
            (some { P with phase := (P.handle hmac fresh writeOk input).1 })
          wire := (P.handle hmac fresh writeOk input).2 ++ w.wire }
  | toConsumer {w : World Mac} (c : ℕ) (C : Consumer Mac) (input : Input Mac) :
      w.consumers c = some C → Emittable hmac held w input →
      Step hmac held w (.toConsumer c input)
        { w with
          consumers := Function.update w.consumers c
            (some { C with
              phase := (dialStep hmac C.spec C.phase input).1
              proof := C.proof.or (dialStep hmac C.spec C.phase input).2 })
          wire := proofMessages (dialStep hmac C.spec C.phase input).2 ++ w.wire }

/-! ## The invariant -/

/-- The nonce a session has issued. -/
def ProviderPhase.nonce? : ProviderPhase Mac → Option Bytes32
  | .awaitProof n => some n
  | .authenticated n _ _ => some n
  | _ => none

structure Inv (hmac : Bytes → Bytes → Mac) (held : Set Bytes) (w : World Mac) : Prop where
  /-- An accepted proof verifies and, unless the adversary could compute it, was sent. -/
  accepted : ∀ p P n mac serving, w.providers p = some P →
    P.phase = .authenticated n mac serving →
    computeProof hmac P.spec.sharedSecret P.spec.name n = mac ∧
      (P.spec.sharedSecret ∉ held → Message.authProof mac ∈ w.wire)
  /-- Proofs on the wire come from consumers. -/
  sent : ∀ mac, Message.authProof mac ∈ w.wire →
    ∃ c C n, w.consumers c = some C ∧ C.proof = some (n, mac)
  /-- A consumer computes its proof with its own name and secret. -/
  computed : ∀ c C n mac, w.consumers c = some C → C.proof = some (n, mac) →
    computeProof hmac C.spec.sharedSecret C.spec.name n = mac
  /-- A consumer that still waits for a nonce has computed nothing. -/
  waiting : ∀ c C, w.consumers c = some C → C.phase = .awaitNonce → C.proof = none
  /-- A session sends the nonce it issues. -/
  issued : ∀ p P n, w.providers p = some P → P.phase.nonce? = some n →
    Message.authNonce n ∈ w.wire
  /-- Nonces of different sessions differ. -/
  distinct : ∀ p P q Q n, w.providers p = some P → w.providers q = some Q →
    P.phase.nonce? = some n → Q.phase.nonce? = some n → p = q

theorem inv_init (hmac : Bytes → Bytes → Mac) (held : Set Bytes) :
    Inv hmac held (World.init : World Mac) where
  accepted := fun _ _ _ _ _ h => by simp [World.init] at h
  sent := fun _ h => by simp [World.init] at h
  computed := fun _ _ _ _ h => by simp [World.init] at h
  waiting := fun _ _ h => by simp [World.init] at h
  issued := fun _ _ _ h => by simp [World.init] at h
  distinct := fun _ _ _ _ _ h => by simp [World.init] at h

/-! ## What one step of a session can do -/

/-- A provider step answers a hello with a nonce, accepts the proof it has just read and
verified, ends, or stays. -/
theorem handle_cases [DecidableEq Mac] (hmac : Bytes → Bytes → Mac) (P : Provider Mac)
    (fresh : Bytes32) (writeOk : Bool) (input : Input Mac) :
    (P.handle hmac fresh writeOk input = (.awaitProof fresh, [.authNonce fresh])) ∨
    (∃ n mac, P.phase = .awaitProof n ∧ input = .received (.authProof mac) ∧
      computeProof hmac P.spec.sharedSecret P.spec.name n = mac ∧
      P.handle hmac fresh writeOk input = (.authenticated n mac P.serving, [.authOk])) ∨
    ((P.handle hmac fresh writeOk input).1 = .closed ∧
      ∀ mac, Message.authProof mac ∉ (P.handle hmac fresh writeOk input).2) ∨
    P.handle hmac fresh writeOk input = (P.phase, []) := by
  obtain ⟨serving, spec, phase⟩ := P
  have hhandle : (⟨serving, spec, phase⟩ : Provider Mac).handle hmac fresh writeOk input =
      providerHandshake serving hmac spec fresh writeOk phase input := by
    cases serving <;> rfl
  rw [hhandle]
  cases phase with
  | closed => exact .inr (.inr (.inr rfl))
  | authenticated nonce mac s => exact .inr (.inr (.inr rfl))
  | awaitHello =>
    rcases input with (_ | _ | _ | _ | _ | _ | _) | _
    case received.authHello =>
      cases writeOk
      · exact .inr (.inr (.inl (by simp [providerHandshake])))
      · exact .inl rfl
    all_goals exact .inr (.inr (.inl (by simp [providerHandshake])))
  | awaitProof nonce =>
    rcases input with (_ | _ | mac | _ | _ | _ | _) | _
    case received.authProof =>
      by_cases hv : verifyProof hmac spec.sharedSecret spec.name nonce mac
      · cases writeOk
        · exact .inr (.inr (.inl (by simp [providerHandshake, hv])))
        · refine .inr (.inl ⟨nonce, mac, rfl, rfl, ?_, by simp [providerHandshake, hv]⟩)
          simpa [verifyProof] using hv
      · exact .inr (.inr (.inl (by simp [providerHandshake, hv])))
    all_goals exact .inr (.inr (.inl (by simp [providerHandshake])))

/-- A consumer step answers a nonce with its own proof, or computes nothing. -/
theorem dialStep_cases (hmac : Bytes → Bytes → Mac) (spec : ConsumerSpec) (phase : ConsumerPhase)
    (input : Input Mac) :
    (∃ n, phase = .awaitNonce ∧ dialStep hmac spec phase input =
      (.awaitVerdict, some (n, computeProof hmac spec.sharedSecret spec.name n))) ∨
    ((dialStep hmac spec phase input).1 ≠ .awaitNonce ∧
      (dialStep hmac spec phase input).2 = none) := by
  cases phase with
  | awaitNonce =>
    rcases input with (_ | n | _ | _ | _ | _ | _) | _
    case received.authNonce => exact .inl ⟨n, rfl, rfl⟩
    all_goals exact .inr (by simp [dialStep])
  | awaitVerdict =>
    rcases input with (_ | _ | _ | _ | _ | _ | _) | _ <;> exact .inr (by simp [dialStep])
  | connected => exact .inr (by simp [dialStep])
  | failed e => exact .inr (by simp [dialStep])

/-! ## One step of the world -/

/-- A provider may move to any phase whose proof verifies and whose nonce is its old one or
new. -/
theorem Inv.setProvider {hmac : Bytes → Bytes → Mac} {held : Set Bytes} {w : World Mac}
    (hi : Inv hmac held w) (p : ℕ) (P : Provider Mac) (msgs : List (Message Mac))
    (hmsgs : ∀ mac, Message.authProof mac ∉ msgs)
    (hauth : ∀ n mac serving, P.phase = .authenticated n mac serving →
      computeProof hmac P.spec.sharedSecret P.spec.name n = mac ∧
        (P.spec.sharedSecret ∉ held → Message.authProof mac ∈ w.wire))
    (hnonce : ∀ n, P.phase.nonce? = some n →
      (Message.authNonce n ∈ msgs ∧ Message.authNonce n ∉ w.wire) ∨
        ∃ P₀, w.providers p = some P₀ ∧ P₀.phase.nonce? = some n) :
    Inv hmac held
      { w with
        providers := Function.update w.providers p (some P)
        wire := msgs ++ w.wire } where
  accepted := by
    intro q Q n mac serving hq hphase
    rcases of_update_eq_some hq with ⟨-, rfl⟩ | ⟨-, hq⟩
    · obtain ⟨hmac, hwire⟩ := hauth n mac serving hphase
      exact ⟨hmac, fun hs => List.mem_append_right _ (hwire hs)⟩
    · obtain ⟨hmac, hwire⟩ := hi.accepted q Q n mac serving hq hphase
      exact ⟨hmac, fun hs => List.mem_append_right _ (hwire hs)⟩
  sent := by
    intro mac hwire
    rcases List.mem_append.1 hwire with h | h
    · exact absurd h (hmsgs mac)
    · exact hi.sent mac h
  computed := hi.computed
  waiting := hi.waiting
  issued := by
    intro q Q n hq hn
    rcases of_update_eq_some hq with ⟨-, rfl⟩ | ⟨-, hq⟩
    · rcases hnonce n hn with ⟨h, -⟩ | ⟨P₀, hP₀, h⟩
      · exact List.mem_append_left _ h
      · exact List.mem_append_right _ (hi.issued p P₀ n hP₀ h)
    · exact List.mem_append_right _ (hi.issued q Q n hq hn)
  distinct := by
    -- The moved session against any other one: a new nonce is on no other session.
    have hother : ∀ q Q n, w.providers q = some Q → P.phase.nonce? = some n →
        Q.phase.nonce? = some n → p = q := by
      intro q Q n hq hP hQ
      rcases hnonce n hP with ⟨-, hnew⟩ | ⟨P₀, hP₀, h⟩
      · exact absurd (hi.issued q Q n hq hQ) hnew
      · exact hi.distinct p P₀ q Q n hP₀ hq h hQ
    intro q Q r R n hq hr hQ hR
    refine update_apart (fun Q R => Q.phase.nonce? = some n ∧ R.phase.nonce? = some n)
      (fun _ _ => And.symm) ?_ ?_ hq hr ⟨hQ, hR⟩
    · intro r R hr h
      exact hother r R n hr h.1 h.2
    · intro q r Q R hq hr h
      exact hi.distinct q Q r R n hq hr h.1 h.2

/-- A consumer may move if it keeps its proof, sends only the proof it has, and computed it
with its own name and secret. -/
theorem Inv.setConsumer {hmac : Bytes → Bytes → Mac} {held : Set Bytes} {w : World Mac}
    (hi : Inv hmac held w) (c : ℕ) (C : Consumer Mac) (msgs : List (Message Mac))
    (hkeep : ∀ C₀, w.consumers c = some C₀ → C₀.proof = none ∨ C₀.proof = C.proof)
    (hmsgs : ∀ mac, Message.authProof mac ∈ msgs → ∃ n, C.proof = some (n, mac))
    (hproof : ∀ n mac, C.proof = some (n, mac) →
      computeProof hmac C.spec.sharedSecret C.spec.name n = mac)
    (hwait : C.phase = .awaitNonce → C.proof = none) :
    Inv hmac held
      { w with
        consumers := Function.update w.consumers c (some C)
        wire := msgs ++ w.wire } where
  accepted := by
    intro p P n mac serving hp hphase
    obtain ⟨hmac, hwire⟩ := hi.accepted p P n mac serving hp hphase
    exact ⟨hmac, fun hs => List.mem_append_right _ (hwire hs)⟩
  sent := by
    intro mac hwire
    have hC : Function.update w.consumers c (some C) c = some C := Function.update_self ..
    rcases List.mem_append.1 hwire with h | h
    · obtain ⟨n, hn⟩ := hmsgs mac h
      exact ⟨c, C, n, hC, hn⟩
    · obtain ⟨d, D, n, hd, hD⟩ := hi.sent mac h
      by_cases hdc : d = c
      · subst hdc
        refine ⟨d, C, n, hC, ?_⟩
        rcases hkeep D hd with hnone | hsame
        · rw [hnone] at hD
          cases hD
        · rw [← hsame, hD]
      · exact ⟨d, D, n, by simpa [Function.update_of_ne hdc] using hd, hD⟩
  computed := by
    intro d D n mac hd hD
    rcases of_update_eq_some hd with ⟨-, rfl⟩ | ⟨-, hd⟩
    · exact hproof n mac hD
    · exact hi.computed d D n mac hd hD
  waiting := by
    intro d D hd hD
    rcases of_update_eq_some hd with ⟨-, rfl⟩ | ⟨-, hd⟩
    · exact hwait hD
    · exact hi.waiting d D hd hD
  issued := fun p P n hp hn => List.mem_append_right _ (hi.issued p P n hp hn)
  distinct := hi.distinct

theorem inv_step [DecidableEq Mac] {hmac : Bytes → Bytes → Mac} {held : Set Bytes}
    {w w' : World Mac} {a : Action Mac} (h : Step hmac held w a w') (hi : Inv hmac held w) :
    Inv hmac held w' := by
  cases h with
  | accept p serving spec hp =>
    exact hi.setProvider p ⟨serving, spec, .awaitHello⟩ [] (by simp) (by simp)
      (by simp [ProviderPhase.nonce?])
  | dial c spec d hc =>
    refine hi.setConsumer c ⟨spec, .awaitNonce, none⟩ (dialOpening spec d) ?_ ?_ (by simp)
      (fun _ => rfl)
    · intro C₀ hC₀
      rw [hc] at hC₀
      cases hC₀
    · cases d <;> simp [dialOpening]
  | toProvider p P input fresh writeOk hp hemit hfresh =>
    rcases handle_cases hmac P fresh writeOk input with
      heq | ⟨n, mac, hphase, rfl, hmac, heq⟩ | ⟨hclosed, hmsgs⟩ | heq
    · rw [heq] at hfresh ⊢
      refine hi.setProvider p _ [.authNonce fresh] (by simp) (by simp) ?_
      intro n hn
      obtain rfl : fresh = n := by simpa [ProviderPhase.nonce?] using hn
      exact .inl ⟨by simp, hfresh (by simp)⟩
    · rw [heq]
      refine hi.setProvider p _ [.authOk] (by simp) ?_ ?_
      · intro n' mac' s h
        obtain ⟨rfl, rfl, -⟩ := by simpa using h
        exact ⟨hmac, fun hs => hemit _ _ hmac hs⟩
      · intro n' hn'
        obtain rfl : n = n' := by simpa [ProviderPhase.nonce?] using hn'
        exact .inr ⟨P, hp, by rw [hphase]; rfl⟩
    · refine hi.setProvider p _ _ hmsgs ?_ ?_
      · simp [hclosed]
      · simp [hclosed, ProviderPhase.nonce?]
    · rw [heq]
      refine hi.setProvider p _ [] (by simp) ?_ ?_
      · exact fun n mac s h => hi.accepted p P n mac s hp h
      · exact fun n hn => .inr ⟨P, hp, hn⟩
  | toConsumer c C input hc hemit =>
    rcases dialStep_cases hmac C.spec C.phase input with ⟨n, hphase, heq⟩ | ⟨hphase, hnone⟩
    · have hproof : C.proof = none := hi.waiting c C hc hphase
      rw [heq]
      refine hi.setConsumer c _ _ ?_ ?_ ?_ (by simp)
      · intro C₀ hC₀
        rw [hc] at hC₀
        obtain rfl := Option.some.inj hC₀
        exact .inl hproof
      · simp [proofMessages, hproof]
      · intro n' mac h
        simp only [hproof, Option.none_or, Option.some.injEq, Prod.mk.injEq] at h
        obtain ⟨rfl, rfl⟩ := h
        rfl
    · rw [hnone]
      refine hi.setConsumer c _ _ ?_ (by simp [proofMessages]) ?_ (fun h => absurd h hphase)
      · intro C₀ hC₀
        rw [hc] at hC₀
        obtain rfl := Option.some.inj hC₀
        exact .inr (by simp)
      · intro n mac h
        exact hi.computed c C n mac hc (by simpa using h)

/-! ## Every run -/

theorem inv_run [DecidableEq Mac] {hmac : Bytes → Bytes → Mac} {held : Set Bytes}
    {w : World Mac} {as : List (Action Mac)} (h : Run (Step hmac held) World.init as w) :
    Inv hmac held w :=
  h.invariant (fun _ _ _ hs hi => inv_step hs hi) (inv_init hmac held)

/-- **Authentication.** A provider session whose secret the adversary does not hold is
authenticated only if a consumer with its service name and secret computed the proof over this
session's nonce, and that proof authenticates no other session. -/
theorem answered_of_authenticated [DecidableEq Mac] {hmac : Bytes → Bytes → Mac}
    (hinj : Function.Injective2 hmac) {held : Set Bytes} {w : World Mac}
    {as : List (Action Mac)} (hrun : Run (Step hmac held) World.init as w)
    {p : ℕ} {P : Provider Mac} {n : Bytes32} {mac : Mac} {serving : Serving}
    (hp : w.providers p = some P) (hphase : P.phase = .authenticated n mac serving)
    (hheld : P.spec.sharedSecret ∉ held) :
    (∃ c C, w.consumers c = some C ∧ C.spec.name = P.spec.name ∧
      C.spec.sharedSecret = P.spec.sharedSecret ∧ C.proof = some (n, mac)) ∧
    ∀ q Q n' serving', w.providers q = some Q → Q.phase = .authenticated n' mac serving' →
      q = p := by
  have hi := inv_run hrun
  obtain ⟨hmac, hwire⟩ := hi.accepted p P n mac serving hp hphase
  obtain ⟨c, C, m, hC, hproof⟩ := hi.sent mac (hwire hheld)
  have hC' := hi.computed c C m mac hC hproof
  obtain ⟨hkey, hname, rfl⟩ := computeProof_injective hinj (hC'.trans hmac.symm)
  refine ⟨⟨c, C, hC, hname, hkey, hproof⟩, ?_⟩
  intro q Q n' serving' hq hQ
  obtain ⟨hmac', -⟩ := hi.accepted q Q n' mac serving' hq hQ
  obtain ⟨-, -, rfl⟩ := computeProof_injective hinj (hmac'.trans hmac.symm)
  exact hi.distinct q Q p P n' hq hp (by rw [hQ]; rfl) (by rw [hphase]; rfl)

/-- One exchange over MACs that record what they were computed from: the consumer dials, the
provider sends its nonce, the consumer its proof. -/
def sampleExchange : List (Action (Bytes × Bytes)) :=
  [.accept 0 .backend ⟨"web", [7]⟩, .dial 0 ⟨"web", [7]⟩ .direct,
    .toProvider 0 (.received .authHello) (.replicate 5) true,
    .toConsumer 0 (.received (.authNonce (.replicate 5))),
    .toProvider 0 (.received (.authProof
      (computeProof Prod.mk [7] "web" (.replicate 5)))) (.replicate 5) true]

theorem run_sampleExchange :
    ∃ w, Run (Step Prod.mk ∅) World.init sampleExchange w ∧
      w.providers 0 = some ⟨.backend, ⟨"web", [7]⟩, .authenticated (.replicate 5)
        (computeProof Prod.mk [7] "web" (.replicate 5)) .backend⟩ := by
  refine ⟨_, .cons (.accept 0 _ _ rfl) (.cons (.dial 0 _ _ rfl)
    (.cons (.toProvider 0 _ _ _ _ rfl trivial ?_)
      (.cons (.toConsumer 0 _ _ rfl trivial)
        (.cons (.toProvider 0 _ _ _ _ rfl ?_ ?_) (.nil _))))), ?_⟩
  · intro _
    decide
  · intro key msg _ _
    exact List.mem_cons_self
  · intro h
    exact absurd h (by decide)
  · rfl

theorem answered_sampleExchange :
    ∃ w : World (Bytes × Bytes), Run (Step Prod.mk ∅) World.init sampleExchange w ∧
      ∃ c C, w.consumers c = some C ∧ C.spec.name = "web" ∧ C.spec.sharedSecret = [7] ∧
        C.proof = some (.replicate 5, computeProof Prod.mk [7] "web" (.replicate 5)) := by
  obtain ⟨w, hrun, hp⟩ := run_sampleExchange
  have hinj : Function.Injective2 (Prod.mk : Bytes → Bytes → Bytes × Bytes) :=
    fun _ _ _ _ h => Prod.mk.inj h
  exact ⟨w, hrun, (answered_of_authenticated hinj hrun hp rfl (by simp)).1⟩

end MeshlyCore.Handshake
