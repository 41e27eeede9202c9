import MeshlyCore.Protocol.Frame
import MeshlyCore.Registry.Sweep

/-!
# A control connection

`ControlHandler::run_session` as an automaton. It waits for a hello, answers it, and then
handles one command after the other until the connection ends; only that last exit cleans up.
Every step does one operation on the registry, and the write of a reply is a step of its own,
after the operation whose result it carries: another connection may run in between, and the
write may fail.

The heartbeats the server sends to the client touch no state and are left out. The rendering of
an endpoint id is iroh's: the parameter `toStr`.
-/

namespace MeshlyCore.Control

open Protocol Registry

/-- What the server gets from a connection: a new stream with a frame on it, a stream with
something else on it, or the end of the connection. -/
inductive Incoming where
  | frame (f : Frame)
  | malformed
  | closed

/-- How `run_session` fails. -/
inductive SessionError where
  | acceptBi
  | readFrame
  | writeFrame
  deriving DecidableEq

/-- The answer to a hello with an unknown token. -/
def unknownGroup : Frame := .controlError 1 "unknown group"

inductive Phase where
  | awaitHello
  /-- Writing `unknownGroup`. -/
  | rejecting
  /-- Writing a reply; `propagate` when a failed write ends the session. -/
  | replying (group : String) (reply : Frame) (propagate : Bool)
  /-- In the main loop, waiting for a command. -/
  | ready (group : String)
  /-- Out of the main loop, in `drop_session`. -/
  | dropping (group : String) (d : Drop)
  /-- `run_session` has returned; `group` is the group of the session, if it got that far. -/
  | ended (group : Option String) (result : Except SessionError Unit)
  deriving DecidableEq

/-- A control connection of the client `remote`, with the replies written on it. -/
structure Conn where
  remote : EndpointId
  phase : Phase
  sent : List Frame
  deriving DecidableEq

namespace Phase

/-- The group of a session whose hello was accepted. -/
def joined : Phase → Option String
  | replying g _ _ => some g
  | ready g => some g
  | dropping g _ => some g
  | ended g _ => g
  | _ => none

/-- The group of a session that is being served. -/
def serving : Phase → Option String
  | replying g _ _ => some g
  | ready g => some g
  | _ => none

theorem joined_of_serving {p : Phase} {g : String} (h : p.serving = some g) :
    p.joined = some g := by
  cases p <;> simp_all [joined, serving]

end Phase

/-! ## Commands -/

/-- `handle_register`. -/
def handleRegister (g : String) (remote : EndpointId) (reg : Register) (st : ServerState) :
    Phase × Op :=
  match (st.groups g).registerService reg.service remote with
  | .ok _ => (.replying g (.registerOk ⟨reg.service⟩) true, .insertService g reg.service remote)
  | .error e => (.replying g (.controlError 3 ("register failed: " ++ e.message)) false, .read)

/-- `handle_subscribe`. -/
def handleSubscribe (toStr : EndpointId → String) (g : String) (sub : Subscribe)
    (st : ServerState) : Phase × Op :=
  match st.lookupService g sub.service with
  | some provider =>
      (.replying g (.subscribeOk ⟨sub.service, some (toStr provider), false⟩) true, .read)
  | none => (.replying g (.subscribeOk ⟨sub.service, none, false⟩) true, .read)

/-- The first frame of a session. -/
def handleHello (remote : EndpointId) (sessionId : UInt64) (now : Instant) (st : ServerState) :
    Incoming → Phase × Op
  | .closed => (.ended none (.error .acceptBi), .read)
  | .malformed => (.ended none (.error .readFrame), .read)
  | .frame (.hello h) =>
      match st.authenticate h.groupToken with
      | some g => (.replying g (.helloOk ⟨sessionId⟩) true, .touchSession g remote now)
      | none => (.rejecting, .read)
  | .frame _ => (.ended none (.ok ()), .read)

/-- One pass of the main loop. -/
def handleCommand (toStr : EndpointId → String) (g : String) (remote : EndpointId)
    (now : Instant) (st : ServerState) : Incoming → Phase × Op
  | .closed => (.dropping g .removeSession, .read)
  | .malformed => (.dropping g .removeSession, .read)
  | .frame (.register reg) => handleRegister g remote reg st
  | .frame (.subscribe sub) => handleSubscribe toStr g sub st
  | .frame .heartbeat => (.ready g, .touchSession g remote now)
  | .frame (.hello _) => (.replying g (.controlError 2 "Hello already received") false, .read)
  | .frame _ => (.ready g, .read)

/-! ## Steps -/

namespace Conn

/-- A session that waits for a frame gets one. -/
def recv (toStr : EndpointId → String) (st : ServerState) (input : Incoming)
    (sessionId : UInt64) (now : Instant) (c : Conn) : Option (Conn × Op) :=
  match c.phase with
  | .awaitHello =>
      let (phase, op) := handleHello c.remote sessionId now st input
      some ({ c with phase := phase }, op)
  | .ready g =>
      let (phase, op) := handleCommand toStr g c.remote now st input
      some ({ c with phase := phase }, op)
  | _ => none

/-- The write of a reply succeeds or fails. -/
def wrote (ok : Bool) (c : Conn) : Option Conn :=
  match c.phase with
  | .rejecting =>
      some { c with
        phase := .ended none (.ok ())
        sent := if ok then c.sent ++ [unknownGroup] else c.sent }
  | .replying g reply propagate =>
      some (if ok then { c with phase := .ready g, sent := c.sent ++ [reply] }
        else if propagate then { c with phase := .ended (some g) (.error .writeFrame) }
        else { c with phase := .ready g })
  | _ => none

/-- The next operation of the clean-up. -/
def cleanup (st : ServerState) (scanned : List String) (c : Conn) : Option (Conn × Op) :=
  match c.phase with
  | .dropping g d =>
      (d.step g c.remote st scanned).map fun (d', op) =>
        ({ c with phase := match d' with
            | some d' => .dropping g d'
            | none => .ended (some g) (.ok ()) }, op)
  | _ => none

end Conn

/-! ## What a step does -/

theorem mem_tokens_of_authenticate {st : ServerState} {token g : String}
    (h : st.authenticate token = some g) : g ∈ st.tokens := by
  obtain ⟨e, he, rfl⟩ := Option.map_eq_some_iff.1 h
  exact List.mem_map_of_mem (List.mem_of_find?_eq_some he)

theorem length_of_registerService {g : Group} {svc : String} {provider : EndpointId}
    {res : Option EndpointId × Group} (h : g.registerService svc provider = .ok res) :
    (utf8 svc).length ≤ 32 := by
  unfold Group.registerService at h
  split at h
  · cases h
  · omega

theorem recv_remote {toStr : EndpointId → String} {st : ServerState} {input : Incoming}
    {sid : UInt64} {now : Instant} {c c' : Conn} {op : Op}
    (h : c.recv toStr st input sid now = some (c', op)) :
    c'.remote = c.remote ∧ c'.sent = c.sent := by
  unfold Conn.recv at h
  split at h
  · obtain ⟨rfl, -⟩ := Prod.mk.inj (Option.some.inj h)
    exact ⟨rfl, rfl⟩
  · obtain ⟨rfl, -⟩ := Prod.mk.inj (Option.some.inj h)
    exact ⟨rfl, rfl⟩
  · cases h

/-- A session that gets a frame joins a group, fails to, registers a service, shows it is alive,
leaves the main loop, or answers without an effect. -/
theorem recv_cases {toStr : EndpointId → String} {st : ServerState} {input : Incoming}
    {sid : UInt64} {now : Instant} {c c' : Conn} {op : Op}
    (h : c.recv toStr st input sid now = some (c', op)) :
    (∃ g, c.phase = .awaitHello ∧ g ∈ st.tokens ∧
      c'.phase = .replying g (.helloOk ⟨sid⟩) true ∧ op = .touchSession g c.remote now) ∨
    (c.phase = .awaitHello ∧ c'.phase.joined = none ∧ op = .read) ∨
    (∃ g svc, c.phase = .ready g ∧ input = .frame (.register ⟨svc⟩) ∧ (utf8 svc).length ≤ 32 ∧
      c'.phase = .replying g (.registerOk ⟨svc⟩) true ∧ op = .insertService g svc c.remote) ∨
    (∃ g, c.phase = .ready g ∧ c'.phase = .ready g ∧ op = .touchSession g c.remote now) ∨
    (∃ g, c.phase = .ready g ∧ c'.phase = .dropping g .removeSession ∧ op = .read) ∨
    (∃ g, c.phase = .ready g ∧ c'.phase.serving = some g ∧ op = .read ∧
      ∀ g' svc p, c'.phase ≠ .replying g' (.registerOk svc) p) := by
  unfold Conn.recv at h
  split at h
  case h_1 hphase =>
    obtain ⟨rfl, rfl⟩ := Prod.mk.inj (Option.some.inj h)
    rcases input with f | _ | _
    · cases f
      case hello hello =>
        cases hauth : st.authenticate hello.groupToken with
        | some g =>
          refine .inl ⟨g, hphase, mem_tokens_of_authenticate hauth, ?_⟩
          simp [hauth]
        | none => exact .inr (.inl ⟨hphase, by simp [hauth, Phase.joined]⟩)
      all_goals exact .inr (.inl ⟨hphase, rfl, rfl⟩)
    · exact .inr (.inl ⟨hphase, rfl, rfl⟩)
    · exact .inr (.inl ⟨hphase, rfl, rfl⟩)
  case h_2 g hphase =>
    obtain ⟨rfl, rfl⟩ := Prod.mk.inj (Option.some.inj h)
    rcases input with f | _ | _
    · cases f
      case register reg =>
        cases hreg : (st.groups g).registerService reg.service c.remote with
        | ok prev =>
          refine .inr (.inr (.inl
            ⟨g, reg.service, hphase, rfl, length_of_registerService hreg, ?_⟩))
          simp [handleRegister, hreg]
        | error e =>
          refine .inr (.inr (.inr (.inr (.inr ⟨g, hphase, ?_⟩))))
          simp [handleRegister, hreg, Phase.serving]
      case subscribe sub =>
        refine .inr (.inr (.inr (.inr (.inr ⟨g, hphase, ?_⟩))))
        cases hlook : st.lookupService g sub.service <;>
          simp [handleSubscribe, hlook, Phase.serving]
      case heartbeat => exact .inr (.inr (.inr (.inl ⟨g, hphase, rfl, rfl⟩)))
      all_goals
        refine .inr (.inr (.inr (.inr (.inr ⟨g, hphase, ?_⟩))))
        simp [Phase.serving]
    · exact .inr (.inr (.inr (.inr (.inl ⟨g, hphase, rfl, rfl⟩))))
    · exact .inr (.inr (.inr (.inr (.inl ⟨g, hphase, rfl, rfl⟩))))
  · cases h

/-- A session is touched by a hello that is accepted and by a heartbeat. -/
theorem recv_touch {toStr : EndpointId → String} {st : ServerState} {input : Incoming}
    {sid : UInt64} {now now' : Instant} {c c' : Conn} {g : String} {client : EndpointId}
    (h : c.recv toStr st input sid now = some (c', .touchSession g client now')) :
    (input = .frame .heartbeat ∧ c.phase = .ready g) ∨
      ∃ hello, input = .frame (.hello hello) ∧ c.phase = .awaitHello ∧
        st.authenticate hello.groupToken = some g := by
  unfold Conn.recv at h
  split at h
  case h_1 hphase =>
    obtain ⟨-, hop⟩ := Prod.mk.inj (Option.some.inj h)
    rcases input with f | _ | _
    · cases f
      case hello hello =>
        cases hauth : st.authenticate hello.groupToken with
        | some g' =>
          simp only [hauth, Op.touchSession.injEq] at hop
          exact .inr ⟨hello, rfl, hphase, by rw [hauth, hop.1]⟩
        | none => simp [hauth] at hop
      all_goals cases hop
    · cases hop
    · cases hop
  case h_2 g' hphase =>
    obtain ⟨-, hop⟩ := Prod.mk.inj (Option.some.inj h)
    rcases input with f | _ | _
    · cases f
      case register reg =>
        simp only [handleRegister] at hop
        split at hop <;> cases hop
      case subscribe sub =>
        simp only [handleSubscribe] at hop
        split at hop <;> cases hop
      case heartbeat =>
        simp only [Op.touchSession.injEq] at hop
        exact .inl ⟨rfl, by rw [hphase, hop.1]⟩
      all_goals cases hop
    · cases hop
    · cases hop
  · cases h

/-- A write sends the reply and goes on, or fails and goes on, or ends the session. -/
theorem wrote_cases {ok : Bool} {c c' : Conn} (h : c.wrote ok = some c') :
    c'.remote = c.remote ∧
    ((c.phase = .rejecting ∧ c'.phase = .ended none (.ok ()) ∧
      (c'.sent = c.sent ∨ c'.sent = c.sent ++ [unknownGroup])) ∨
    (∃ g reply p, c.phase = .replying g reply p ∧ c'.phase = .ready g ∧
      (c'.sent = c.sent ∨ c'.sent = c.sent ++ [reply])) ∨
    (∃ g reply, ok = false ∧ c.phase = .replying g reply true ∧
      c'.phase = .ended (some g) (.error .writeFrame) ∧ c'.sent = c.sent)) := by
  unfold Conn.wrote at h
  split at h
  case h_1 hphase =>
    obtain rfl := Option.some.inj h
    refine ⟨rfl, .inl ⟨hphase, rfl, ?_⟩⟩
    cases ok <;> simp
  case h_2 g reply p hphase =>
    obtain rfl := Option.some.inj h
    cases ok with
    | true => exact ⟨rfl, .inr (.inl ⟨g, reply, p, hphase, rfl, .inr rfl⟩)⟩
    | false =>
      cases p with
      | true => exact ⟨rfl, .inr (.inr ⟨g, reply, rfl, hphase, rfl, rfl⟩)⟩
      | false => exact ⟨rfl, .inr (.inl ⟨g, reply, false, hphase, rfl, .inl rfl⟩)⟩
  · cases h

theorem cleanup_cases {st : ServerState} {scanned : List String} {c c' : Conn} {op : Op}
    (h : c.cleanup st scanned = some (c', op)) :
    ∃ g d d', c.phase = .dropping g d ∧ d.step g c.remote st scanned = some (d', op) ∧
      c'.remote = c.remote ∧ c'.sent = c.sent ∧
      ((∃ e, d' = some e ∧ c'.phase = .dropping g e) ∨
        d' = none ∧ c'.phase = .ended (some g) (.ok ())) := by
  unfold Conn.cleanup at h
  split at h
  case h_1 g d hphase =>
    obtain ⟨⟨d', op'⟩, hd, heq⟩ := Option.map_eq_some_iff.1 h
    obtain ⟨rfl, rfl⟩ := Prod.mk.inj heq
    refine ⟨g, d, d', hphase, hd, rfl, rfl, ?_⟩
    cases d' with
    | some e => exact .inl ⟨e, rfl, rfl⟩
    | none => exact .inr ⟨rfl, rfl⟩
  · cases h

end MeshlyCore.Control
