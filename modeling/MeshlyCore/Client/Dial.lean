import MeshlyCore.Alpn
import MeshlyCore.Endpoint
import MeshlyCore.Lib.Machine
import MeshlyCore.Protocol.Wire

/-!
# Dialling a provider

`consume.rs`: `dial_stream` tries the provider directly and over the relay, again and again, with
the provider id it finds in a cache or gets from a subscribe. The cache is shared by all streams
of a consumed service, so any number of `dial_stream` runs work on it at once.

A provider that restarted under another identity rejects the handshake, and the id it was found
under is of no use any more. A direct dial that is rejected clears the cache; a relayed one does
not, although its error is worded for it, and the relayed dial that follows a direct one in the
same pass uses the id of that pass in any case.

**Theorem (`fresh_attempts`).** As long as no direct dial of a run is rejected, and its relayed
dials are rejected only when the cache is empty and no subscribe is under way, every attempt of
the run uses an id from a subscribe made after the run's last rejection.
-/

namespace MeshlyCore.Client

open Protocol Alpn Machine

/-! ## One dial -/

/-- The renderings `{:?}` of a string and of a frame. -/
structure Debug where
  str : String → String
  frame : Frame → String

/-- What the environment answers to the operations of a dial, with the text of the error where one
fails. -/
structure Exchange where
  connect : Except String Unit := .ok ()
  openBi : Except String Unit := .ok ()
  writeOpen : Except String Unit := .ok ()
  writeHello : Except String Unit := .ok ()
  nonce : Except String Frame
  writeProof : Except String Unit := .ok ()
  verdict : Except String Frame

inductive DialFailure where
  | alpn (e : AlpnError)
  | connect (text : String)
  | openBi (text : String)
  | writeOpen (text : String)
  | writeHello (text : String)
  | readNonce (text : String)
  | authErr (code : UInt8) (reason : String)
  | expectedNonce (got : Frame)
  | writeProof (text : String)
  | rejected (code : UInt8) (reason : String)
  | expectedOk (got : Frame)
  /-- The stream was lost after the proof was sent. -/
  | lost (text : String)

/-- The handshake both dials run on their stream. -/
def dialHandshake (x : Exchange) : Except DialFailure Unit := do
  x.writeHello.mapError .writeHello
  match ← x.nonce.mapError .readNonce with
  | .authNonce _ => pure ()
  | .authErr code reason => .error (.authErr code reason)
  | other => .error (.expectedNonce other)
  x.writeProof.mapError .writeProof
  match x.verdict with
  | .ok .authOk => .ok ()
  | .ok (.authErr code reason) => .error (.rejected code reason)
  | .ok other => .error (.expectedOk other)
  | .error e => .error (.lost e)

def dialDirect (service : String) (x : Exchange) : Except DialFailure Unit := do
  let _ ← (alpnForService service).mapError .alpn
  x.connect.mapError .connect
  x.openBi.mapError .openBi
  dialHandshake x

def dialRelay (x : Exchange) : Except DialFailure Unit := do
  x.connect.mapError .connect
  x.openBi.mapError .openBi
  x.writeOpen.mapError .writeOpen
  dialHandshake x

/-- The provider turned the handshake down: with an `AuthErr`, or by closing the stream on the
proof. -/
def DialFailure.isRejection : DialFailure → Bool
  | .authErr _ _ => true
  | .rejected _ _ => true
  | .lost _ => true
  | _ => false

/-! ## Its error -/

def alpnMessage (dbg : Debug) : AlpnError → String
  | .badLength len => "service name must be 1..=32 chars, got " ++ toString len
  | .invalidChars name =>
      "service name has invalid chars (allowed: [a-z0-9-]): " ++ dbg.str name
  | .badEdge => "service name must not start or end with '-'"
  | .doubleDash => "service name must not contain consecutive '-'"
  | .reserved name => "service name is reserved: " ++ dbg.str name

def rejection (code : UInt8) (reason : String) : String :=
  "code=" ++ toString code.toNat ++ " reason=" ++ reason

/-- The error chain of `dial_direct`, as `{:#}` prints it. -/
def DialFailure.message (dbg : Debug) : DialFailure → String
  | .alpn e => alpnMessage dbg e
  | .connect text => "connect to provider: " ++ text
  | .openBi text => text
  | .writeOpen text => text
  | .writeHello text => "write auth hello: " ++ text
  | .readNonce text => text
  | .authErr code reason => "provider auth err " ++ rejection code reason
  | .expectedNonce got => "expected AuthNonce, got " ++ dbg.frame got
  | .writeProof text => text
  | .rejected code reason => "provider rejected proof: " ++ rejection code reason
  | .expectedOk got => "expected AuthOk, got " ++ dbg.frame got
  | .lost text =>
      "provider rejected proof: " ++
        rejection authErrBadProof ("connection lost (" ++ text ++ ")")

/-- Is this error a provider auth failure? -/
def isAuthError (msg : String) : Bool :=
  ["provider rejected proof", "provider auth err", "AuthErr"].any fun pat =>
    pat.toList <:+: msg.toList

/-! ## `dial_stream` -/

structure ReconnectConfig where
  initialBackoffMs : UInt64 := 50
  maxBackoffMs : UInt64 := 5000
  preferDirect : Bool := true

/-- The fields of `ConsumeState` that do not change. -/
structure ConsumeConfig where
  name : String
  reconnect : ReconnectConfig

/-- A provider id, with the time of the subscribe that gave it. -/
structure Provider where
  id : EndpointId
  since : ℕ
  deriving DecidableEq

inductive Phase where
  /-- In `ensure_provider_id`, about to look into the cache. -/
  | start
  | subscribing (since : ℕ)
  | storing (p : Provider)
  | direct (p : Provider)
  /-- Rejected, and about to clear the cache. -/
  | invalidating (p : Provider)
  | relay (p : Provider)
  | sleeping (ms : UInt64)
  /-- `dial_stream` has returned a stream, or the error of a subscribe. -/
  | done (res : Except String Unit)
  deriving DecidableEq

/-- One `dial_stream`, with the time of its last rejection. -/
structure DialRun where
  phase : Phase
  backoffMs : UInt64
  rejectedAt : Option ℕ
  deriving DecidableEq

structure Consumer where
  cachedProvider : Option Provider
  runs : ℕ → Option DialRun
  time : ℕ

def Consumer.init (cached : Option EndpointId) : Consumer :=
  ⟨cached.map (⟨·, 0⟩), fun _ => none, 1⟩

/-- What happens next to a run. -/
inductive Act where
  | begin
  | look
  | subscribed (res : Except String EndpointId)
  | store
  | direct (x : Exchange)
  | invalidate
  | relay (x : Exchange)
  | wake

structure Event where
  run : ℕ
  act : Act

/-- The dial a pass starts with. -/
def attempt (cfg : ConsumeConfig) (p : Provider) : Phase :=
  if cfg.reconnect.preferDirect then .direct p else .relay p

def noteRejection (f : DialFailure) (time : ℕ) (r : DialRun) : Option ℕ :=
  if f.isRejection then some time else r.rejectedAt

namespace DialRun

/-- One step of a run, with the cache after it. -/
def next (cfg : ConsumeConfig) (dbg : Debug) (cached : Option Provider) (time : ℕ) (r : DialRun) :
    Act → Option (DialRun × Option Provider)
  | .look =>
      match r.phase, cached with
      | .start, some p => some ({ r with phase := attempt cfg p }, cached)
      | .start, none => some ({ r with phase := .subscribing time }, cached)
      | _, _ => none
  | .subscribed res =>
      match r.phase, res with
      | .subscribing since, .ok id => some ({ r with phase := .storing ⟨id, since⟩ }, cached)
      | .subscribing _, .error e => some ({ r with phase := .done (.error e) }, cached)
      | _, _ => none
  | .store =>
      match r.phase with
      | .storing p => some ({ r with phase := attempt cfg p }, some p)
      | _ => none
  | .direct x =>
      match r.phase with
      | .direct p =>
          match dialDirect cfg.name x with
          | .ok () => some ({ r with phase := .done (.ok ()) }, cached)
          | .error f => some ({ r with
              phase := if isAuthError (f.message dbg) then .invalidating p else .relay p
              rejectedAt := noteRejection f time r }, cached)
      | _ => none
  | .invalidate =>
      match r.phase with
      | .invalidating p => some ({ r with phase := .relay p }, none)
      | _ => none
  | .relay x =>
      match r.phase with
      | .relay _ =>
          match dialRelay x with
          | .ok () => some ({ r with phase := .done (.ok ()) }, cached)
          | .error f => some (⟨.sleeping r.backoffMs,
              min (r.backoffMs * 2) cfg.reconnect.maxBackoffMs, noteRejection f time r⟩, cached)
      | _ => none
  | .wake =>
      match r.phase with
      | .sleeping _ => some ({ r with phase := .start }, cached)
      | _ => none
  | .begin => none

end DialRun

/-- One step of the consumer. -/
def Consumer.next (cfg : ConsumeConfig) (dbg : Debug) (s : Consumer) (e : Event) :
    Option Consumer :=
  match s.runs e.run, e.act with
  | none, .begin => some { s with
      runs := Function.update s.runs e.run
        (some ⟨.start, cfg.reconnect.initialBackoffMs, none⟩)
      time := s.time + 1 }
  | none, _ => none
  | some r, act => (r.next cfg dbg s.cachedProvider s.time act).map fun (r', cached) =>
      ⟨cached, Function.update s.runs e.run (some r'), s.time + 1⟩

abbrev Steps (cfg : ConsumeConfig) (dbg : Debug) : Consumer → Event → Consumer → Prop :=
  stepOf (Consumer.next cfg dbg)

/-! ## Which ids a run uses -/

namespace Phase

/-- The provider that is being dialled. -/
def attempt? : Phase → Option Provider
  | .direct p => some p
  | .relay p => some p
  | _ => none

/-- The time of a subscribe whose answer is not in the cache yet. -/
def inFlight? : Phase → Option ℕ
  | .subscribing since => some since
  | .storing p => some p.since
  | _ => none

/-- The time of the subscribe behind what a run holds. -/
def since? : Phase → Option ℕ
  | .subscribing since => some since
  | .storing p => some p.since
  | .direct p => some p.since
  | .invalidating p => some p.since
  | .relay p => some p.since
  | _ => none

end Phase

section Runs

variable {cfg : ConsumeConfig} {dbg : Debug} {s s' : Consumer} {e : Event}

/-- Every attempt under way uses an id from a subscribe made after the last rejection. -/
def FreshAttempt (i : ℕ) (s : Consumer) : Prop :=
  ∀ r t p, s.runs i = some r → r.rejectedAt = some t → r.phase.attempt? = some p → t < p.since

/-- Run `i` is not rejected on a direct dial; and when it is rejected on a relayed one, the cache
is empty and no subscribe is under way. -/
def RejectedClean (cfg : ConsumeConfig) (i : ℕ) (s : Consumer) (e : Event) : Prop :=
  e.run = i →
    (∀ x f, e.act = .direct x → dialDirect cfg.name x = .error f → ¬f.isRejection) ∧
    ∀ x f, e.act = .relay x → dialRelay x = .error f → f.isRejection →
      s.cachedProvider = none ∧ ∀ k r, s.runs k = some r → r.phase.inFlight? = none

theorem since?_attempt (p : Provider) : (attempt cfg p).since? = some p.since := by
  unfold attempt
  split <;> rfl

theorem inFlight?_attempt (p : Provider) : (attempt cfg p).inFlight? = none := by
  unfold attempt
  split <;> rfl

theorem since?_of_attempt? {ph : Phase} {p : Provider} (h : ph.attempt? = some p) :
    ph.since? = some p.since := by
  cases ph with
  | direct q => rw [← Option.some.inj h]; rfl
  | relay q => rw [← Option.some.inj h]; rfl
  | _ => cases h

theorem inFlight?_of_since? {ph : Phase} (h : ph.since? = none) : ph.inFlight? = none := by
  cases ph <;> first | rfl | cases h

/-- The steps of a run, one by one. -/
inductive DialMove (cfg : ConsumeConfig) (dbg : Debug) (cached : Option Provider) (time : ℕ)
    (r : DialRun) : Act → DialRun → Option Provider → Prop
  | hit {p : Provider} (phase : r.phase = .start) (cache : cached = some p) :
      DialMove cfg dbg cached time r .look { r with phase := attempt cfg p } cached
  | miss (phase : r.phase = .start) (cache : cached = none) :
      DialMove cfg dbg cached time r .look { r with phase := .subscribing time } cached
  | subscribed {since : ℕ} {id : EndpointId} (phase : r.phase = .subscribing since) :
      DialMove cfg dbg cached time r (.subscribed (.ok id))
        { r with phase := .storing ⟨id, since⟩ } cached
  | unsubscribed {since : ℕ} {e : String} (phase : r.phase = .subscribing since) :
      DialMove cfg dbg cached time r (.subscribed (.error e))
        { r with phase := .done (.error e) } cached
  | store {p : Provider} (phase : r.phase = .storing p) :
      DialMove cfg dbg cached time r .store { r with phase := attempt cfg p } (some p)
  | directOk {p : Provider} {x : Exchange} (phase : r.phase = .direct p)
      (dial : dialDirect cfg.name x = .ok ()) :
      DialMove cfg dbg cached time r (.direct x) { r with phase := .done (.ok ()) } cached
  | directErr {p : Provider} {x : Exchange} {f : DialFailure} (phase : r.phase = .direct p)
      (dial : dialDirect cfg.name x = .error f) :
      DialMove cfg dbg cached time r (.direct x)
        { r with
          phase := if isAuthError (f.message dbg) then .invalidating p else .relay p
          rejectedAt := noteRejection f time r } cached
  | invalidate {p : Provider} (phase : r.phase = .invalidating p) :
      DialMove cfg dbg cached time r .invalidate { r with phase := .relay p } none
  | relayOk {p : Provider} {x : Exchange} (phase : r.phase = .relay p)
      (dial : dialRelay x = .ok ()) :
      DialMove cfg dbg cached time r (.relay x) { r with phase := .done (.ok ()) } cached
  | relayErr {p : Provider} {x : Exchange} {f : DialFailure} (phase : r.phase = .relay p)
      (dial : dialRelay x = .error f) :
      DialMove cfg dbg cached time r (.relay x)
        ⟨.sleeping r.backoffMs, min (r.backoffMs * 2) cfg.reconnect.maxBackoffMs,
          noteRejection f time r⟩ cached
  | wake {ms : UInt64} (phase : r.phase = .sleeping ms) :
      DialMove cfg dbg cached time r .wake { r with phase := .start } cached

theorem dial_move {cached cached' : Option Provider} {time : ℕ} {act : Act} {r r' : DialRun}
    (h : r.next cfg dbg cached time act = some (r', cached')) :
    DialMove cfg dbg cached time r act r' cached' := by
  cases act with
  | begin => cases h
  | look =>
    simp only [DialRun.next] at h
    split at h
    · rename_i hp
      obtain ⟨rfl, rfl⟩ := Prod.mk.inj (Option.some.inj h)
      exact .hit hp rfl
    · rename_i hp
      obtain ⟨rfl, rfl⟩ := Prod.mk.inj (Option.some.inj h)
      exact .miss hp rfl
    · cases h
  | subscribed res =>
    simp only [DialRun.next] at h
    split at h
    · rename_i hp
      obtain ⟨rfl, rfl⟩ := Prod.mk.inj (Option.some.inj h)
      exact .subscribed hp
    · rename_i hp
      obtain ⟨rfl, rfl⟩ := Prod.mk.inj (Option.some.inj h)
      exact .unsubscribed hp
    · cases h
  | store =>
    simp only [DialRun.next] at h
    split at h
    · rename_i hp
      obtain ⟨rfl, rfl⟩ := Prod.mk.inj (Option.some.inj h)
      exact .store hp
    · cases h
  | direct x =>
    simp only [DialRun.next] at h
    split at h
    · rename_i hp
      split at h
      · rename_i hdial
        obtain ⟨rfl, rfl⟩ := Prod.mk.inj (Option.some.inj h)
        exact .directOk hp hdial
      · rename_i hdial
        obtain ⟨rfl, rfl⟩ := Prod.mk.inj (Option.some.inj h)
        exact .directErr hp hdial
    · cases h
  | invalidate =>
    simp only [DialRun.next] at h
    split at h
    · rename_i hp
      obtain ⟨rfl, rfl⟩ := Prod.mk.inj (Option.some.inj h)
      exact .invalidate hp
    · cases h
  | relay x =>
    simp only [DialRun.next] at h
    split at h
    · rename_i hp
      split at h
      · rename_i hdial
        obtain ⟨rfl, rfl⟩ := Prod.mk.inj (Option.some.inj h)
        exact .relayOk hp hdial
      · rename_i hdial
        obtain ⟨rfl, rfl⟩ := Prod.mk.inj (Option.some.inj h)
        exact .relayErr hp hdial
    · cases h
  | wake =>
    simp only [DialRun.next] at h
    split at h
    · rename_i hp
      obtain ⟨rfl, rfl⟩ := Prod.mk.inj (Option.some.inj h)
      exact .wake hp
    · cases h

/-- What a step of a run can do: to the cache, to what the run holds, to what it has asked for,
and to its last rejection. -/
structure RunStep (cfg : ConsumeConfig) (cached : Option Provider) (time : ℕ) (act : Act)
    (r r' : DialRun) (cached' : Option Provider) : Prop where
  cache : cached' = cached ∨ cached' = none ∨ ∃ p, r.phase = .storing p ∧ cached' = some p
  since : ∀ t, r'.phase.since? = some t →
    r.phase.since? = some t ∨ t = time ∨ ∃ p, cached = some p ∧ t = p.since
  inFlight : ∀ t, r'.phase.inFlight? = some t → r.phase.inFlight? = some t ∨ t = time
  rejected : r'.rejectedAt = r.rejectedAt ∨ (r'.rejectedAt = some time ∧
    ((∃ x f, act = .direct x ∧ dialDirect cfg.name x = .error f ∧ f.isRejection) ∨
      (r'.phase.since? = none ∧
        ∃ x f, act = .relay x ∧ dialRelay x = .error f ∧ f.isRejection)))

/-- A dial that fails is noted as a rejection just when it is one. -/
theorem noteRejection_cases (f : DialFailure) (time : ℕ) (r : DialRun) :
    noteRejection f time r = r.rejectedAt ∨
      (noteRejection f time r = some time ∧ f.isRejection) := by
  unfold noteRejection
  split_ifs with h
  · exact .inr ⟨rfl, h⟩
  · exact .inl rfl

/-- A run that holds nothing after the step, and whose step leaves the cache alone. -/
theorem RunStep.of_since? {cached : Option Provider} {time : ℕ} {act : Act} {r r' : DialRun}
    (hnone : r'.phase.since? = none)
    (hrejected : r'.rejectedAt = r.rejectedAt ∨ (r'.rejectedAt = some time ∧
      ∃ x f, act = .relay x ∧ dialRelay x = .error f ∧ f.isRejection)) :
    RunStep cfg cached time act r r' cached := by
  refine ⟨.inl rfl, fun t ht => ?_, fun t ht => ?_, ?_⟩
  · rw [hnone] at ht
    cases ht
  · rw [inFlight?_of_since? hnone] at ht
    cases ht
  · exact hrejected.imp_right fun hnew => ⟨hnew.1, .inr ⟨hnone, hnew.2⟩⟩

theorem run_step {cached cached' : Option Provider} {time : ℕ} {act : Act} {r r' : DialRun}
    (h : r.next cfg dbg cached time act = some (r', cached')) :
    RunStep cfg cached time act r r' cached' := by
  cases dial_move h with
  | @hit p _ cache =>
    refine ⟨.inl rfl, fun t ht => .inr (.inr ⟨p, cache, ?_⟩), fun t ht => ?_, .inl rfl⟩
    · exact (Option.some.inj ((since?_attempt p).symm.trans ht)).symm
    · rw [inFlight?_attempt] at ht
      cases ht
  | miss =>
    refine ⟨.inl rfl, fun t ht => .inr (.inl ?_), fun t ht => .inr ?_, .inl rfl⟩
    · exact (Option.some.inj ht).symm
    · exact (Option.some.inj ht).symm
  | subscribed phase =>
    exact ⟨.inl rfl, fun t ht => .inl (by rw [phase]; exact ht),
      fun t ht => .inl (by rw [phase]; exact ht), .inl rfl⟩
  | unsubscribed => exact .of_since? rfl (.inl rfl)
  | @store p phase =>
    refine ⟨.inr (.inr ⟨p, phase, rfl⟩), fun t ht => .inl ?_, fun t ht => ?_, .inl rfl⟩
    · rw [phase]
      exact (since?_attempt p).symm.trans ht
    · rw [inFlight?_attempt] at ht
      cases ht
  | directOk => exact .of_since? rfl (.inl rfl)
  | @directErr p x f phase dial =>
    refine ⟨.inl rfl, fun t ht => .inl ?_, fun t ht => ?_, ?_⟩
    · rw [phase]
      split at ht <;> exact ht
    · split at ht <;> cases ht
    · rcases noteRejection_cases f time r with hsame | ⟨hnew, hrej⟩
      · exact .inl hsame
      · exact .inr ⟨hnew, .inl ⟨x, f, rfl, dial, hrej⟩⟩
  | invalidate phase =>
    exact ⟨.inr (.inl rfl), fun t ht => .inl (by rw [phase]; exact ht),
      (fun t ht => by cases ht), .inl rfl⟩
  | relayOk => exact .of_since? rfl (.inl rfl)
  | @relayErr p x f _ dial =>
    refine .of_since? rfl ?_
    rcases noteRejection_cases f time r with hsame | ⟨hnew, hrej⟩
    · exact .inl hsame
    · exact .inr ⟨hnew, x, f, rfl, dial, hrej⟩
  | wake => exact .of_since? rfl (.inl rfl)

/-- A step starts a run or moves one. -/
theorem consumer_cases (h : Steps cfg dbg s e s') :
    (s.runs e.run = none ∧ s'.cachedProvider = s.cachedProvider ∧ s'.time = s.time + 1 ∧
      s'.runs = Function.update s.runs e.run
        (some ⟨.start, cfg.reconnect.initialBackoffMs, none⟩)) ∨
    ∃ r r', s.runs e.run = some r ∧ s'.runs = Function.update s.runs e.run (some r') ∧
      s'.time = s.time + 1 ∧
      RunStep cfg s.cachedProvider s.time e.act r r' s'.cachedProvider := by
  unfold Steps stepOf Consumer.next at h
  split at h
  · rename_i hr _
    obtain rfl := Option.some.inj h
    exact .inl ⟨hr, rfl, rfl, rfl⟩
  · cases h
  · rename_i r hr
    obtain ⟨⟨r', cached⟩, hnext, rfl⟩ := Option.map_eq_some_iff.1 h
    exact .inr ⟨r, r', hr, rfl, rfl, run_step hnext⟩

/-- After a rejection at time `t`, everything a run holds or may get to hold is newer. -/
structure NewerThan (i : ℕ) (t : ℕ) (s : Consumer) : Prop where
  time : t < s.time
  held : ∀ r u, s.runs i = some r → r.phase.since? = some u → t < u
  cache : ∀ p, s.cachedProvider = some p → t < p.since
  inFlight : ∀ k r u, s.runs k = some r → r.phase.inFlight? = some u → t < u

/-- Whatever happens next is newer. -/
theorem newerThan_step {i t : ℕ} (h : Steps cfg dbg s e s') (hi : NewerThan i t s) :
    NewerThan i t s' := by
  rcases consumer_cases h with ⟨-, hcache, htime, hruns⟩ | ⟨r, r', hr, hruns, htime, hstep⟩
  · refine ⟨by rw [htime]; exact Nat.lt_succ_of_lt hi.time, ?_, by rw [hcache]; exact hi.cache, ?_⟩
    · intro q u hq hu
      rw [hruns] at hq
      rcases of_update_eq_some hq with ⟨-, rfl⟩ | ⟨-, hq⟩
      · cases hu
      · exact hi.held q u hq hu
    · intro k q u hq hu
      rw [hruns] at hq
      rcases of_update_eq_some hq with ⟨-, rfl⟩ | ⟨-, hq⟩
      · cases hu
      · exact hi.inFlight k q u hq hu
  · refine ⟨by rw [htime]; exact Nat.lt_succ_of_lt hi.time, ?_, ?_, ?_⟩
    · intro q u hq hu
      rw [hruns] at hq
      rcases of_update_eq_some hq with ⟨rfl, rfl⟩ | ⟨-, hq⟩
      · rcases hstep.since u hu with hold | rfl | ⟨p, hp, rfl⟩
        · exact hi.held r u hr hold
        · exact hi.time
        · exact hi.cache p hp
      · exact hi.held q u hq hu
    · intro p hp
      rcases hstep.cache with hsame | hnone | ⟨q, hq, hsome⟩
      · exact hi.cache p (hsame ▸ hp)
      · rw [hnone] at hp
        cases hp
      · rw [hsome] at hp
        obtain rfl := Option.some.inj hp
        exact hi.inFlight e.run r q.since hr (by rw [hq]; rfl)
    · intro k q u hq hu
      rw [hruns] at hq
      rcases of_update_eq_some hq with ⟨-, rfl⟩ | ⟨-, hq⟩
      · rcases hstep.inFlight u hu with hold | rfl
        · exact hi.inFlight e.run r u hr hold
        · exact hi.time
      · exact hi.inFlight k q u hq hu

/-- Run `i` holds, and can get to hold, only what is newer than its last rejection. -/
def Renewed (i : ℕ) (s : Consumer) : Prop :=
  ∀ r t, s.runs i = some r → r.rejectedAt = some t → NewerThan i t s

theorem renewed_step {i : ℕ} (h : Steps cfg dbg s e s') (hclean : RejectedClean cfg i s e)
    (hi : Renewed i s) : Renewed i s' := by
  intro q t hq ht
  have hcases := consumer_cases h
  rcases hcases with ⟨-, -, -, hruns⟩ | ⟨r, r', hr, hruns, htime, hstep⟩
  · rw [hruns] at hq
    rcases of_update_eq_some hq with ⟨-, rfl⟩ | ⟨-, hq⟩
    · cases ht
    · exact newerThan_step h (hi q t hq ht)
  · rw [hruns] at hq
    rcases of_update_eq_some hq with ⟨hrun, rfl⟩ | ⟨-, hq⟩
    · subst hrun
      rcases hstep.rejected with hsame |
          ⟨hnew, ⟨x, f, hact, hf, hrej⟩ | ⟨hnone, x, f, hact, hf, hrej⟩⟩
      · exact newerThan_step h (hi r t hr (hsame ▸ ht))
      · exact absurd hrej ((hclean rfl).1 x f hact hf)
      · -- Rejected over the relay: the cache is empty, and nobody is about to fill it.
        obtain ⟨hcache, hflight⟩ := (hclean rfl).2 x f hact hf hrej
        obtain rfl := Option.some.inj (hnew.symm.trans ht)
        refine ⟨by rw [htime]; exact Nat.lt_succ_self _, ?_, ?_, ?_⟩
        · intro q' u hq' hu
          rw [hruns, Function.update_self] at hq'
          obtain rfl := Option.some.inj hq'
          rw [hnone] at hu
          cases hu
        · intro p hp
          rcases hstep.cache with hsame | hempty | ⟨p', hp', -⟩
          · rw [hsame, hcache] at hp
            cases hp
          · rw [hempty] at hp
            cases hp
          · have := hflight e.run r hr
            rw [hp'] at this
            cases this
        · intro k q' u hq' hu
          rw [hruns] at hq'
          rcases of_update_eq_some hq' with ⟨-, rfl⟩ | ⟨-, hq'⟩
          · rw [inFlight?_of_since? hnone] at hu
            cases hu
          · rw [hflight k q' hq'] at hu
            cases hu
    · exact newerThan_step h (hi q t hq ht)

/-- **Fresh ids.** In a run of the consumer in which `dial_stream` number `i` is never rejected on
a direct dial, and is rejected on a relayed one only when the cache is empty and no subscribe is
under way, every attempt it makes uses an id from a subscribe made after its last rejection. -/
theorem fresh_attempts {i : ℕ} {cached : Option EndpointId} {es : List Event}
    (hrun : Run (Guarded (RejectedClean cfg i) (Steps cfg dbg)) (Consumer.init cached) es s) :
    FreshAttempt i s := by
  have hrenewed : Renewed i s := by
    refine Run.invariant (P := Renewed i) ?_ hrun (fun r t hr => by cases hr)
    intro u a v hstep hi
    exact renewed_step hstep.2 hstep.1 hi
  intro r t p hr ht hp
  exact (hrenewed r t hr ht).held r p.since hr (since?_of_attempt? hp)

end Runs

/-! ## Rejected runs -/

def samplePeer : EndpointId := ⟨.replicate 1⟩

def plain : Debug := ⟨id, fun _ => "frame"⟩

/-- The provider answers the proof with an `AuthErr`. -/
def rejectedExchange : Exchange where
  nonce := .ok (.authNonce (.replicate 0))
  verdict := .ok (.authErr authErrBadProof "bad HMAC proof")

/-- Nobody answers. -/
def timedOut : Exchange where
  connect := .error "timed out"
  nonce := .error "timed out"
  verdict := .error "timed out"

def directFirst : ConsumeConfig := ⟨"web", {}⟩

def relayOnly : ConsumeConfig := ⟨"web", { preferDirect := false }⟩

/-- Look into the empty cache, subscribe and store what comes back. -/
def subscribeEvents (i : ℕ) : List Event :=
  [⟨i, .look⟩, ⟨i, .subscribed (.ok samplePeer)⟩, ⟨i, .store⟩]

/-- Two streams at once. The direct dial of the second is rejected and clears the cache before
the relayed dial of the first is. -/
def clearedEvents : List Event :=
  ⟨0, .begin⟩ :: ⟨1, .begin⟩ :: subscribeEvents 0 ++ [⟨1, .look⟩, ⟨0, .direct timedOut⟩,
    ⟨1, .direct rejectedExchange⟩, ⟨1, .invalidate⟩]

def retryEvents : List Event := [⟨0, .wake⟩] ++ subscribeEvents 0

theorem exec_cleared :
    (exec (Consumer.next directFirst plain) (Consumer.init none) clearedEvents).isSome := by
  decide

def cleared : Consumer := Option.get _ exec_cleared

theorem step_cleared :
    (Consumer.next directFirst plain cleared ⟨0, .relay rejectedExchange⟩).isSome := by
  decide

def turnedDown : Consumer := Option.get _ step_cleared

theorem exec_retried :
    (exec (Consumer.next directFirst plain) turnedDown retryEvents).isSome := by
  decide

def retried : Consumer := Option.get _ exec_retried

theorem inFlight?_cleared : ∀ k r, cleared.runs k = some r → r.phase.inFlight? = none := by
  intro k r hr
  match k with
  | 0 =>
    obtain rfl := Option.some.inj hr
    rfl
  | 1 =>
    obtain rfl := Option.some.inj hr
    rfl
  | k + 2 => cases hr

theorem rejectedClean_cleared :
    ∀ e ∈ clearedEvents, ∀ w, RejectedClean directFirst 0 w e := by
  intro e he w hrun
  simp only [clearedEvents, subscribeEvents, List.cons_append, List.nil_append, List.mem_cons,
    List.not_mem_nil, or_false] at he
  refine ⟨fun x f hact hf => ?_, fun x f hact => ?_⟩
  · rcases he with rfl | rfl | rfl | rfl | rfl | rfl | rfl | rfl | rfl <;> cases hact
    · cases hf
      simp [DialFailure.isRejection]
    · cases hrun
  · rcases he with rfl | rfl | rfl | rfl | rfl | rfl | rfl | rfl | rfl <;> cases hact

theorem rejectedClean_retry :
    ∀ e ∈ retryEvents, ∀ w, RejectedClean directFirst 0 w e := by
  intro e he w _
  simp only [retryEvents, subscribeEvents, List.singleton_append, List.mem_cons,
    List.not_mem_nil, or_false] at he
  rcases he with rfl | rfl | rfl | rfl <;> simp

/-- The first stream was rejected at time 10, and dials an id it asked for at time 12. -/
theorem fresh_attempts_retried :
    ∃ es r p, Run (Guarded (RejectedClean directFirst 0) (Steps directFirst plain))
        (Consumer.init none) es retried ∧
      retried.runs 0 = some r ∧ r.rejectedAt = some 10 ∧ r.phase.attempt? = some p ∧
      p.since = 12 ∧ 10 < p.since := by
  have hhead := (run_of_exec (Option.some_get exec_cleared).symm).guarded rejectedClean_cleared
  have htail := (run_of_exec (Option.some_get exec_retried).symm).guarded rejectedClean_retry
  have hstep : RejectedClean directFirst 0 cleared ⟨0, .relay rejectedExchange⟩ := by
    intro _
    exact ⟨fun _ _ h => (by cases h), fun _ _ _ _ _ => ⟨rfl, inFlight?_cleared⟩⟩
  have hrun := hhead.append (.cons ⟨hstep, (Option.some_get step_cleared).symm⟩ htail)
  exact ⟨_, _, _, hrun, rfl, rfl, rfl, rfl, fresh_attempts hrun _ 10 _ rfl rfl rfl⟩

/-- A stream of its own, rejected over the relay. -/
def relayEvents : List Event :=
  ⟨0, .begin⟩ :: subscribeEvents 0 ++
    [⟨0, .relay rejectedExchange⟩, ⟨0, .wake⟩, ⟨0, .look⟩]

theorem exec_relayed :
    (exec (Consumer.next relayOnly plain) (Consumer.init none) relayEvents).isSome := by
  decide

/-- The same, rejected on the direct dial. -/
def directEvents : List Event :=
  ⟨0, .begin⟩ :: subscribeEvents 0 ++ [⟨0, .direct rejectedExchange⟩, ⟨0, .invalidate⟩]

theorem exec_dialled :
    (exec (Consumer.next directFirst plain) (Consumer.init none) directEvents).isSome := by
  decide

/-- Rejected over the relay at time 5, the stream dials the cached id of time 2 again. Rejected
on the direct dial at time 5, it goes on to the relay with the id of time 2. -/
theorem stale_attempts :
    (∃ s r, Run (Steps relayOnly plain) (Consumer.init none) relayEvents s ∧
      s.runs 0 = some r ∧ r.rejectedAt = some 5 ∧ r.phase = .relay ⟨samplePeer, 2⟩ ∧
      ¬FreshAttempt 0 s) ∧
    ∃ s r, Run (Steps directFirst plain) (Consumer.init none) directEvents s ∧
      s.runs 0 = some r ∧ r.rejectedAt = some 5 ∧ r.phase = .relay ⟨samplePeer, 2⟩ ∧
      ¬FreshAttempt 0 s := by
  refine ⟨⟨_, _, run_of_exec (Option.some_get exec_relayed).symm, rfl, rfl, rfl, fun h => ?_⟩,
    ⟨_, _, run_of_exec (Option.some_get exec_dialled).symm, rfl, rfl, rfl, fun h => ?_⟩⟩
  · exact absurd (h _ 5 ⟨samplePeer, 2⟩ rfl rfl rfl) (by decide)
  · exact absurd (h _ 5 ⟨samplePeer, 2⟩ rfl rfl rfl) (by decide)

end MeshlyCore.Client
