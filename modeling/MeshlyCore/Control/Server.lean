import MeshlyCore.Control.Session
import MeshlyCore.Lib.Machine

/-!
# The control plane

Any number of control connections and one sweeper over one registry, interleaved operation by
operation. A connection is numbered when it is accepted and keeps its number, also after its
session has returned; two connections may belong to one client, and often do: a client that
exposes services keeps one open, and opens another for every subscription.

An event names the actor and everything the environment decides in its step: the frame that
arrives, the outcome of a write, the time, the order in which a scan sees a map.
-/

namespace MeshlyCore.Control

open Protocol Registry Machine

structure Server where
  state : ServerState
  conns : ℕ → Option Conn
  sweeper : Sweeper
  clock : Instant

def Server.init (st : ServerState) : Server := ⟨st, fun _ => none, .idle, 0⟩

inductive Event where
  | connect (i : ℕ) (remote : EndpointId)
  | recv (i : ℕ) (input : Incoming) (sessionId : UInt64) (now : Instant)
  | wrote (i : ℕ) (ok : Bool)
  | cleanup (i : ℕ) (scanned : List String)
  | sweep (input : SweepInput)

/-- The time of an event that reads the clock. -/
def Event.time? : Event → Option Instant
  | .recv _ _ _ now => some now
  | .sweep input => some input.now
  | _ => none

namespace Server

def setConn (i : ℕ) (c : Conn) (w : Server) : Server :=
  { w with conns := Function.update w.conns i (some c) }

/-- One step of the server; `none` when the actor cannot take it. -/
def next (toStr : EndpointId → String) (w : Server) : Event → Option Server
  | .connect i remote =>
      if (w.conns i).isNone then some (w.setConn i ⟨remote, .awaitHello, []⟩) else none
  | .recv i input sessionId now =>
      if w.clock ≤ now then
        (w.conns i).bind fun c => (c.recv toStr w.state input sessionId now).map fun (c', op) =>
          { w.setConn i c' with state := op.apply w.state, clock := now }
      else none
  | .wrote i ok => (w.conns i).bind fun c => (c.wrote ok).map fun c' => w.setConn i c'
  | .cleanup i scanned =>
      (w.conns i).bind fun c => (c.cleanup w.state scanned).map fun (c', op) =>
        { w.setConn i c' with state := op.apply w.state }
  | .sweep input =>
      if w.clock ≤ input.now then
        (w.sweeper.step w.state input).map fun (s, op) =>
          { w with state := op.apply w.state, sweeper := s, clock := input.now }
      else none

end Server

/-- The step relation of the control plane. -/
abbrev Steps (toStr : EndpointId → String) : Server → Event → Server → Prop :=
  stepOf (Server.next toStr)

/-! ## What a step does -/

section Cases

variable {toStr : EndpointId → String} {w w' : Server}

/-- A step adds a connection, moves one, or moves the sweeper. -/
theorem next_cases {e : Event} (h : Steps toStr w e w') :
    (∃ i remote, e = .connect i remote ∧ w.conns i = none ∧
      w' = w.setConn i ⟨remote, .awaitHello, []⟩) ∨
    (∃ i input sid now c c' op, e = .recv i input sid now ∧ w.conns i = some c ∧
      c.recv toStr w.state input sid now = some (c', op) ∧
      w' = { w.setConn i c' with state := op.apply w.state, clock := now }) ∨
    (∃ i ok c c', e = .wrote i ok ∧ w.conns i = some c ∧ c.wrote ok = some c' ∧
      w' = w.setConn i c') ∨
    (∃ i scanned c c' op, e = .cleanup i scanned ∧ w.conns i = some c ∧
      c.cleanup w.state scanned = some (c', op) ∧
      w' = { w.setConn i c' with state := op.apply w.state }) ∨
    (∃ input s op, e = .sweep input ∧ w.sweeper.step w.state input = some (s, op) ∧
      w' = { w with state := op.apply w.state, sweeper := s, clock := input.now }) := by
  unfold Steps stepOf at h
  cases e with
  | connect i remote =>
    simp only [Server.next] at h
    split at h
    · rename_i hi
      exact .inl ⟨i, remote, rfl, by simpa using hi, (Option.some.inj h).symm⟩
    · cases h
  | recv i input sid now =>
    simp only [Server.next] at h
    split at h
    · obtain ⟨c, hc, h⟩ := Option.bind_eq_some_iff.1 h
      obtain ⟨⟨c', op⟩, hrecv, rfl⟩ := Option.map_eq_some_iff.1 h
      exact .inr (.inl ⟨i, input, sid, now, c, c', op, rfl, hc, hrecv, rfl⟩)
    · cases h
  | wrote i ok =>
    obtain ⟨c, hc, h⟩ := Option.bind_eq_some_iff.1 h
    obtain ⟨c', hwrote, rfl⟩ := Option.map_eq_some_iff.1 h
    exact .inr (.inr (.inl ⟨i, ok, c, c', rfl, hc, hwrote, rfl⟩))
  | cleanup i scanned =>
    obtain ⟨c, hc, h⟩ := Option.bind_eq_some_iff.1 h
    obtain ⟨⟨c', op⟩, hclean, rfl⟩ := Option.map_eq_some_iff.1 h
    exact .inr (.inr (.inr (.inl ⟨i, scanned, c, c', op, rfl, hc, hclean, rfl⟩)))
  | sweep input =>
    simp only [Server.next] at h
    split at h
    · obtain ⟨⟨s, op⟩, hstep, rfl⟩ := Option.map_eq_some_iff.1 h
      exact .inr (.inr (.inr (.inr ⟨input, s, op, rfl, hstep, rfl⟩)))
    · cases h

theorem conns_setConn_self (i : ℕ) (c : Conn) : (w.setConn i c).conns i = some c := by
  simp [Server.setConn]

theorem conns_setConn_of_ne {i j : ℕ} (h : j ≠ i) (c : Conn) :
    (w.setConn i c).conns j = w.conns j := by
  simp [Server.setConn, Function.update_of_ne h]

/-- Where a connection comes from: it is new, it has not moved, or it has made a step of its
own. -/
theorem conns_of_step {e : Event} (h : Steps toStr w e w') {i : ℕ} {c' : Conn}
    (hc' : w'.conns i = some c') :
    (∃ remote, w.conns i = none ∧ c' = ⟨remote, .awaitHello, []⟩) ∨
    ∃ c, w.conns i = some c ∧ (c' = c ∨
      (∃ input sid now op, e = .recv i input sid now ∧
        c.recv toStr w.state input sid now = some (c', op)) ∨
      (∃ ok, c.wrote ok = some c' ∧ w'.state = w.state) ∨
      ∃ scanned op, c.cleanup w.state scanned = some (c', op) ∧ w'.state = op.apply w.state) := by
  have hset : ∀ {j : ℕ} {d : Conn}, (w.setConn j d).conns i = some c' →
      (j = i ∧ d = c') ∨ w.conns i = some c' := by
    intro j d hd
    by_cases hj : i = j
    · subst hj
      rw [conns_setConn_self] at hd
      exact .inl ⟨rfl, Option.some.inj hd⟩
    · rw [conns_setConn_of_ne hj] at hd
      exact .inr hd
  rcases next_cases h with ⟨j, remote, -, hj, rfl⟩ |
      ⟨j, input, sid, now, d, d', op, he, hj, hd, rfl⟩ | ⟨j, ok, d, d', -, hj, hd, rfl⟩ |
      ⟨j, scanned, d, d', op, -, hj, hd, rfl⟩ | ⟨input, s, op, -, -, rfl⟩
  · rcases hset hc' with ⟨rfl, rfl⟩ | hc
    · exact .inl ⟨remote, hj, rfl⟩
    · exact .inr ⟨c', hc, .inl rfl⟩
  · rcases hset hc' with ⟨rfl, rfl⟩ | hc
    · exact .inr ⟨d, hj, .inr (.inl ⟨input, sid, now, op, he, hd⟩)⟩
    · exact .inr ⟨c', hc, .inl rfl⟩
  · rcases hset hc' with ⟨rfl, rfl⟩ | hc
    · exact .inr ⟨d, hj, .inr (.inr (.inl ⟨ok, hd, rfl⟩))⟩
    · exact .inr ⟨c', hc, .inl rfl⟩
  · rcases hset hc' with ⟨rfl, rfl⟩ | hc
    · exact .inr ⟨d, hj, .inr (.inr (.inr ⟨scanned, op, hd, rfl⟩))⟩
    · exact .inr ⟨c', hc, .inl rfl⟩
  · exact .inr ⟨c', hc', .inl rfl⟩

/-- A connection that moves keeps its client and, once it has one, its group; and it is not
served again once it has left. -/
def Moves (c c' : Conn) : Prop :=
  c'.remote = c.remote ∧ (∀ g, c.phase.joined = some g → c'.phase.joined = some g) ∧
    ∀ g, c.phase.joined = some g → c'.phase.serving = some g → c.phase.serving = some g

theorem Moves.refl (c : Conn) : Moves c c := ⟨rfl, fun _ h => h, fun _ _ h => h⟩

theorem moves_recv {st : ServerState} {input : Incoming} {sid : UInt64} {now : Instant}
    {c c' : Conn} {op : Op} (h : c.recv toStr st input sid now = some (c', op)) :
    Moves c c' := by
  refine ⟨(recv_remote h).1, ?_⟩
  rcases recv_cases h with ⟨g, hp, -⟩ | ⟨hp, -⟩ | ⟨g, svc, hp, -, -, hp', -⟩ | ⟨g, hp, hp', -⟩ |
      ⟨g, hp, hp', -⟩ | ⟨g, hp, hp', -, -⟩
  · simp [hp, Phase.joined]
  · simp [hp, Phase.joined]
  · simp [hp, hp', Phase.joined, Phase.serving]
  · simp [hp, hp', Phase.joined, Phase.serving]
  · simp [hp, hp', Phase.joined, Phase.serving]
  · rw [hp]
    refine ⟨fun g' h => ?_, fun g' h _ => h⟩
    rw [Phase.joined_of_serving hp']
    exact h

theorem moves_wrote {ok : Bool} {c c' : Conn} (h : c.wrote ok = some c') : Moves c c' := by
  obtain ⟨hremote, h⟩ := wrote_cases h
  refine ⟨hremote, ?_⟩
  rcases h with ⟨hp, hp', -⟩ | ⟨g, reply, p, hp, hp', -⟩ | ⟨g, reply, -, hp, hp', -⟩
  · simp [hp, Phase.joined]
  · simp [hp, hp', Phase.joined, Phase.serving]
  · simp [hp, hp', Phase.joined, Phase.serving]

theorem moves_cleanup {st : ServerState} {scanned : List String} {c c' : Conn} {op : Op}
    (h : c.cleanup st scanned = some (c', op)) : Moves c c' := by
  obtain ⟨g, d, d', hp, -, hremote, -, ⟨e, -, hp'⟩ | ⟨-, hp'⟩⟩ := cleanup_cases h
  · exact ⟨hremote, by simp [hp, hp', Phase.joined, Phase.serving]⟩
  · exact ⟨hremote, by simp [hp, hp', Phase.joined, Phase.serving]⟩

theorem moves_setConn {i j : ℕ} {c c' C : Conn} (hi : w.conns i = some c) (hm : Moves c c')
    (hj : w.conns j = some C) : ∃ C', (w.setConn i c').conns j = some C' ∧ Moves C C' := by
  by_cases hji : j = i
  · subst hji
    rw [hi] at hj
    obtain rfl := Option.some.inj hj
    exact ⟨c', conns_setConn_self j c', hm⟩
  · exact ⟨C, by rw [conns_setConn_of_ne hji, hj], .refl C⟩

/-- No connection is ever forgotten. -/
theorem conns_step {e : Event} (h : Steps toStr w e w') {j : ℕ} {C : Conn}
    (hj : w.conns j = some C) : ∃ C', w'.conns j = some C' ∧ Moves C C' := by
  rcases next_cases h with ⟨i, remote, -, hi, rfl⟩ |
      ⟨i, input, sid, now, c, c', op, -, hi, hc, rfl⟩ | ⟨i, ok, c, c', -, hi, hc, rfl⟩ |
      ⟨i, scanned, c, c', op, -, hi, hc, rfl⟩ | ⟨input, s, op, -, -, rfl⟩
  · have hji : j ≠ i := by
      rintro rfl
      rw [hi] at hj
      cases hj
    exact ⟨C, by rw [conns_setConn_of_ne hji, hj], .refl C⟩
  · exact moves_setConn hi (moves_recv hc) hj
  · exact moves_setConn hi (moves_wrote hc) hj
  · exact moves_setConn hi (moves_cleanup hc) hj
  · exact ⟨C, hj, .refl C⟩

/-- Only its own steps move the sweeper. -/
theorem sweeper_step {e : Event} (h : Steps toStr w e w') :
    w'.sweeper = w.sweeper ∨ ∃ input op, e = .sweep input ∧
      w.sweeper.step w.state input = some (w'.sweeper, op) ∧ w'.state = op.apply w.state := by
  rcases next_cases h with ⟨_, _, -, -, rfl⟩ | ⟨_, _, _, _, _, _, _, -, -, -, rfl⟩ |
      ⟨_, _, _, _, -, -, -, rfl⟩ | ⟨_, _, _, _, _, -, -, -, rfl⟩ | ⟨input, s, op, he, hs, rfl⟩
  · exact .inl rfl
  · exact .inl rfl
  · exact .inl rfl
  · exact .inl rfl
  · exact .inr ⟨input, op, he, hs, rfl⟩

/-- Time goes on: a step that reads the clock sets it, forward. -/
theorem clock_step {e : Event} (h : Steps toStr w e w') :
    w.clock ≤ w'.clock ∧ ∀ now, e.time? = some now → w'.clock = now := by
  unfold Steps stepOf at h
  cases e with
  | connect i remote =>
    simp only [Server.next, Option.ite_none_right_eq_some, Option.some.injEq] at h
    obtain ⟨-, rfl⟩ := h
    exact ⟨le_refl w.clock, by simp [Event.time?]⟩
  | recv i input sid now =>
    simp only [Server.next, Option.ite_none_right_eq_some] at h
    obtain ⟨hle, h⟩ := h
    obtain ⟨c, -, h⟩ := Option.bind_eq_some_iff.1 h
    obtain ⟨_, -, rfl⟩ := Option.map_eq_some_iff.1 h
    exact ⟨hle, by simp [Event.time?]⟩
  | wrote i ok =>
    obtain ⟨c, -, h⟩ := Option.bind_eq_some_iff.1 h
    obtain ⟨c', -, rfl⟩ := Option.map_eq_some_iff.1 h
    exact ⟨le_refl w.clock, by simp [Event.time?]⟩
  | cleanup i scanned =>
    obtain ⟨c, -, h⟩ := Option.bind_eq_some_iff.1 h
    obtain ⟨_, -, rfl⟩ := Option.map_eq_some_iff.1 h
    exact ⟨le_refl w.clock, by simp [Event.time?]⟩
  | sweep input =>
    simp only [Server.next, Option.ite_none_right_eq_some] at h
    obtain ⟨hle, h⟩ := h
    obtain ⟨_, -, rfl⟩ := Option.map_eq_some_iff.1 h
    exact ⟨hle, by simp [Event.time?]⟩

/-- A `Register` with a name that is short enough is accepted. -/
theorem state_of_register {e : Event} (h : Steps toStr w e w') {i : ℕ} {svc g : String}
    {sid : UInt64} {now : Instant} {c : Conn}
    (he : e = .recv i (.frame (.register ⟨svc⟩)) sid now) (hc : w.conns i = some c)
    (hp : c.phase = .ready g) (hlen : (utf8 svc).length ≤ 32) :
    w'.state = (Op.insertService g svc c.remote).apply w.state := by
  have hok : (w.state.groups g).registerService svc c.remote =
      .ok (((w.state.groups g).services.lookup svc).map (·.providerId),
        (w.state.groups g).insertService svc c.remote) := by
    rw [Group.registerService, if_neg (by omega)]
  subst he
  rcases next_cases h with ⟨_, _, he, -⟩ | ⟨j, input, sid', now', d, d', op, he, hj, hd, rfl⟩ |
      ⟨_, _, _, _, he, -⟩ | ⟨_, _, _, _, _, he, -⟩ | ⟨_, _, _, he, -⟩
  · cases he
  · cases he
    rw [hc] at hj
    obtain rfl := Option.some.inj hj
    simp only [Conn.recv, hp, handleCommand, handleRegister, hok, Option.some.injEq,
      Prod.mk.injEq] at hd
    rw [← hd.2]
  · cases he
  · cases he
  · cases he

end Cases

/-! ## Drops under way -/

/-- Who may be in `drop_session`. -/
inductive Actor where
  | conn (i : ℕ)
  | sweeper
  deriving DecidableEq

/-- Who carries out the next operation of its drop in an event. -/
def Event.dropActor : Event → Option Actor
  | .cleanup i _ => some (.conn i)
  | .sweep _ => some .sweeper
  | _ => none

/-- The drop a session is in the middle of. -/
def Conn.drop? (c : Conn) : Option (String × EndpointId × Drop) :=
  match c.phase with
  | .dropping g d => some (g, c.remote, d)
  | _ => none

/-- The drop an actor is in the middle of: its group, its client, and where it stands. -/
def Server.drop? (w : Server) : Actor → Option (String × EndpointId × Drop)
  | .conn i => (w.conns i).bind Conn.drop?
  | .sweeper => w.sweeper.drop?

section Effects

variable {toStr : EndpointId → String} {w w' : Server}

theorem drop?_setConn_of_ne {i : ℕ} {c : Conn} {a : Actor} (h : a ≠ .conn i) :
    (w.setConn i c).drop? a = w.drop? a := by
  cases a with
  | conn j =>
    have hj : j ≠ i := by
      rintro rfl
      exact h rfl
    simp only [Server.drop?, conns_setConn_of_ne hj]
  | sweeper => rfl

theorem drop?_setConn_self {i : ℕ} {c : Conn} : (w.setConn i c).drop? (.conn i) = c.drop? := by
  simp [Server.drop?, conns_setConn_self]

/-- The step that carries out the next operation of a drop. -/
def Drops (w : Server) (e : Event) (a : Actor) (g : String) (client : EndpointId) (d : Drop)
    (d' : Option Drop) (op : Op) (w' : Server) : Prop :=
  e.dropActor = some a ∧ w.drop? a = some (g, client, d) ∧
    (∃ scanned, d.step g client w.state scanned = some (d', op)) ∧
    w'.state = op.apply w.state ∧ w'.drop? a = d'.map (fun e => (g, client, e)) ∧
    ∀ b ≠ a, w'.drop? b = w.drop? b

/-- Connection `i` sends a hello that is accepted into group `g`, or a heartbeat in `g`. -/
def Beats (w : Server) (e : Event) (i : ℕ) (client : EndpointId) (g : String) (now : Instant) :
    Prop :=
  ∃ input sid c, e = .recv i input sid now ∧ w.conns i = some c ∧ c.remote = client ∧
    ((input = .frame .heartbeat ∧ c.phase = .ready g) ∨
      ∃ hello, input = .frame (.hello hello) ∧ c.phase = .awaitHello ∧
        w.state.authenticate hello.groupToken = some g)

/-- What a step outside of `drop_session` does to the registry. -/
inductive Acts (w : Server) (e : Event) (w' : Server) : Op → Prop
  | read : Acts w e w' .read
  | touch {i : ℕ} {c : Conn} {g : String} {now : Instant} : w'.conns i = some c →
      c.phase.serving = some g → Beats w e i c.remote g now →
      Acts w e w' (.touchSession g c.remote now)
  | insert {i : ℕ} {c c' : Conn} {g svc : String} {sid : UInt64} {now : Instant} :
      e = .recv i (.frame (.register ⟨svc⟩)) sid now → (utf8 svc).length ≤ 32 →
      w.conns i = some c → c.phase = .ready g → w'.conns i = some c' →
      c'.phase = .replying g (.registerOk ⟨svc⟩) true → c'.remote = c.remote →
      Acts w e w' (.insertService g svc c.remote)

theorem drop?_of_serving {c : Conn} {g : String} (h : c.phase.serving = some g) :
    c.drop? = none := by
  cases hp : c.phase <;> simp_all [Conn.drop?, Phase.serving]

theorem drop?_of_joined_eq_none {c : Conn} (h : c.phase.joined = none) : c.drop? = none := by
  cases hp : c.phase <;> simp_all [Conn.drop?, Phase.joined]

theorem Acts.of_touch {e : Event} {g : String} {client : EndpointId} {now : Instant}
    (h : Acts w e w' (.touchSession g client now)) :
    ∃ i c, w'.conns i = some c ∧ c.remote = client ∧ c.phase.serving = some g ∧
      Beats w e i client g now := by
  generalize hop : Op.touchSession g client now = op at h
  cases h with
  | read => cases hop
  | insert => cases hop
  | touch hc hs hb =>
    obtain ⟨rfl, rfl, rfl⟩ := Op.touchSession.inj hop
    exact ⟨_, _, hc, rfl, hs, hb⟩

theorem Acts.of_insert {e : Event} {g svc : String} {provider : EndpointId}
    (h : Acts w e w' (.insertService g svc provider)) :
    ∃ i c c' sid now, e = .recv i (.frame (.register ⟨svc⟩)) sid now ∧ (utf8 svc).length ≤ 32 ∧
      w.conns i = some c ∧ c.phase = .ready g ∧ c.remote = provider ∧ w'.conns i = some c' ∧
      c'.phase = .replying g (.registerOk ⟨svc⟩) true ∧ c'.remote = provider := by
  generalize hop : Op.insertService g svc provider = op at h
  cases h with
  | read => cases hop
  | touch => cases hop
  | insert he hlen hc hp hc' hp' hremote =>
    obtain ⟨rfl, rfl, rfl⟩ := Op.insertService.inj hop
    exact ⟨_, _, _, _, _, he, hlen, hc, hp, rfl, hc', hp', hremote⟩

/-- A connection that was in no drop moves, and starts at most a new one. -/
theorem keeps_drops {i : ℕ} {c : Conn} (hold : (w.conns i).bind Conn.drop? = none)
    (hnew : ∀ g client d, c.drop? = some (g, client, d) → d = .removeSession) :
    (∀ a x, w.drop? a = some x → (w.setConn i c).drop? a = some x) ∧
    ∀ a g client d, (w.setConn i c).drop? a = some (g, client, d) →
      w.drop? a = some (g, client, d) ∨ d = .removeSession := by
  constructor
  · intro a x hx
    have ha : a ≠ .conn i := by
      rintro rfl
      rw [Server.drop?, hold] at hx
      cases hx
    rw [drop?_setConn_of_ne ha, hx]
  · intro a g client d hd
    by_cases ha : a = .conn i
    · subst ha
      rw [drop?_setConn_self] at hd
      exact .inr (hnew g client d hd)
    · rw [drop?_setConn_of_ne ha] at hd
      exact .inl hd

/-- **Every step is one operation**: a drop moves on, or a session acts. In the second case
every drop under way stays where it is, and a new one is at its beginning. -/
theorem step_effect {e : Event} (h : Steps toStr w e w') :
    (∃ a g client d d' op, Drops w e a g client d d' op w') ∨
    (∃ op, w'.state = op.apply w.state ∧ Acts w e w' op ∧
      (∀ a x, w.drop? a = some x → w'.drop? a = some x) ∧
      ∀ a g client d, w'.drop? a = some (g, client, d) →
        w.drop? a = some (g, client, d) ∨ d = .removeSession) := by
  rcases next_cases h with ⟨i, remote, -, hi, rfl⟩ |
      ⟨i, input, sid, now, c, c', op, he, hi, hc, rfl⟩ | ⟨i, ok, c, c', -, hi, hc, rfl⟩ |
      ⟨i, scanned, c, c', op, rfl, hi, hc, rfl⟩ | ⟨input, s, op, rfl, hs, rfl⟩
  · exact .inr ⟨.read, rfl, .read, keeps_drops (by rw [hi]; rfl) (by simp [Conn.drop?])⟩
  · obtain ⟨hremote, -⟩ := recv_remote hc
    have hself : (w.setConn i c').conns i = some c' := conns_setConn_self i c'
    have hold : (w.conns i).bind Conn.drop? = none := by
      rw [hi, Option.bind_some]
      rcases recv_cases hc with ⟨g, hp, -⟩ | ⟨hp, -⟩ | ⟨g, svc, hp, -⟩ | ⟨g, hp, -⟩ | ⟨g, hp, -⟩ |
          ⟨g, hp, -⟩
      all_goals simp [Conn.drop?, hp]
    have hbeats : ∀ g, op = .touchSession g c.remote now → Beats w e i c'.remote g now := by
      rintro g rfl
      exact ⟨input, sid, c, he, hi, hremote.symm, recv_touch hc⟩
    rcases recv_cases hc with ⟨g, -, -, hp', rfl⟩ | ⟨-, hp', rfl⟩ |
        ⟨g, svc, hp, rfl, hlen, hp', rfl⟩ | ⟨g, -, hp', rfl⟩ | ⟨g, -, hp', rfl⟩ |
        ⟨g, -, hp', rfl, -⟩
    · refine .inr ⟨.touchSession g c.remote now, rfl, ?_,
        keeps_drops hold (by simp [Conn.drop?, hp'])⟩
      have hb := hbeats g rfl
      rw [← hremote]
      exact .touch hself (by rw [hp']; rfl) hb
    · exact .inr ⟨.read, rfl, .read,
        keeps_drops hold (by simp [drop?_of_joined_eq_none hp'])⟩
    · exact .inr ⟨.insertService g svc c.remote, rfl, .insert he hlen hi hp hself hp' hremote,
        keeps_drops hold (by simp [Conn.drop?, hp'])⟩
    · refine .inr ⟨.touchSession g c.remote now, rfl, ?_,
        keeps_drops hold (by simp [Conn.drop?, hp'])⟩
      have hb := hbeats g rfl
      rw [← hremote]
      exact .touch hself (by rw [hp']; rfl) hb
    · refine .inr ⟨.read, rfl, .read, keeps_drops hold ?_⟩
      intro g' client d hd
      simp only [Conn.drop?, hp', Option.some.injEq, Prod.mk.injEq] at hd
      exact hd.2.2.symm
    · exact .inr ⟨.read, rfl, .read, keeps_drops hold (by simp [drop?_of_serving hp'])⟩
  · obtain ⟨-, hw⟩ := wrote_cases hc
    refine .inr ⟨.read, rfl, .read, ?_⟩
    rcases hw with ⟨hp, hp', -⟩ | ⟨g, reply, p, hp, hp', -⟩ | ⟨g, reply, -, hp, hp', -⟩
    all_goals exact keeps_drops (by simp [hi, Conn.drop?, hp]) (by simp [Conn.drop?, hp'])
  · obtain ⟨g, d, d', hp, hd, hremote, -, hp'⟩ := cleanup_cases hc
    refine .inl ⟨.conn i, g, c.remote, d, d', op, rfl, ?_, ⟨scanned, hd⟩, rfl, ?_, ?_⟩
    · simp [Server.drop?, hi, Conn.drop?, hp]
    · refine (drop?_setConn_self (w := w) (i := i) (c := c')).trans ?_
      rcases hp' with ⟨e, rfl, hp'⟩ | ⟨rfl, hp'⟩
      · simp [Conn.drop?, hp', hremote]
      · simp [Conn.drop?, hp']
    · exact fun b hb => drop?_setConn_of_ne hb
  · rcases sweeper_cases hs with ⟨g, client, d, d', hd, hstep, hd'⟩ | ⟨rfl, hnone, hnew⟩
    · refine .inl ⟨.sweeper, g, client, d, d', op, rfl, hd, ⟨_, hstep⟩, rfl, hd', ?_⟩
      intro b hb
      cases b with
      | conn i => rfl
      | sweeper => exact absurd rfl hb
    · refine .inr ⟨.read, rfl, .read, ?_, ?_⟩
      · intro a x hx
        cases a with
        | conn i => exact hx
        | sweeper =>
          rw [Server.drop?, hnone] at hx
          cases hx
      · intro a g client d hx
        cases a with
        | conn i => exact .inl hx
        | sweeper => exact .inr (hnew g client d hx)

/-- The groups are those of the configuration. -/
theorem tokens_step {e : Event} (h : Steps toStr w e w') :
    w'.state.tokens = w.state.tokens := by
  rcases step_effect h with ⟨a, g, client, d, d', op, -, -, -, hstate, -⟩ | ⟨op, hstate, -⟩ <;>
    rw [hstate, tokens_apply]

/-- A step of a drop adds and changes no entry. -/
theorem lookup_of_drops {e : Event} {a : Actor} {g : String} {client : EndpointId} {d : Drop}
    {d' : Option Drop} {op : Op} (h : Drops w e a g client d d' op w') (g' : String) :
    (∀ svc r, (w'.state.groups g').services.lookup svc = some r →
      (w.state.groups g').services.lookup svc = some r) ∧
    ∀ c s, (w'.state.groups g').sessions.lookup c = some s →
      (w.state.groups g').sessions.lookup c = some s := by
  obtain ⟨-, -, ⟨scanned, hd⟩, hstate, -⟩ := h
  rw [hstate]
  refine ⟨fun svc r hr => ?_, fun c s hs => ?_⟩
  · exact (service_of_apply hr).resolve_right ((drop_op hd).2 _ _ _)
  · exact (heartbeat_of_apply hs).resolve_right ((drop_op hd).1 _ _ _)

/-- The last heartbeat of a session is what it was, or the time of one that has just come. -/
theorem heartbeat_of_step {e : Event} (h : Steps toStr w e w') {g : String} {client : EndpointId}
    {s : Session} (hs : (w'.state.groups g).sessions.lookup client = some s) :
    (w.state.groups g).sessions.lookup client = some s ∨
      ∃ i, Beats w e i client g s.lastHeartbeat := by
  rcases step_effect h with ⟨a, g', c, d, d', op, hdrop⟩ | ⟨op, hstate, hact, -⟩
  · exact .inl ((lookup_of_drops hdrop g).2 client s hs)
  · rw [hstate] at hs
    rcases heartbeat_of_apply hs with hs | rfl
    · exact .inl hs
    · obtain ⟨i, -, -, -, -, hbeats⟩ := hact.of_touch
      exact .inr ⟨i, hbeats⟩

/-- Only a drop removes. -/
theorem drops_of_removed {e : Event} (h : Steps toStr w e w') {g : String} :
    (∀ svc, svc ∈ (w.state.groups g).services → svc ∉ (w'.state.groups g).services →
      ∃ a client left, e.dropActor = some a ∧
        w.drop? a = some (g, client, .remove (svc :: left))) ∧
    ∀ client, client ∈ (w.state.groups g).sessions → client ∉ (w'.state.groups g).sessions →
      ∃ a, e.dropActor = some a ∧ w.drop? a = some (g, client, .removeSession) := by
  rcases step_effect h with ⟨a, g', client', d, d', op, ha, hb, ⟨scanned, hd⟩, hstate, -⟩ |
      ⟨op, hstate, hact, -⟩
  · rw [hstate]
    constructor
    · intro svc hmem hgone
      have hop : op = .removeService g svc := by
        by_contra hop
        exact hgone (mem_services_apply hmem hop)
      rcases drop_cases hd with ⟨-, -, rfl⟩ | ⟨-, -, rfl, -⟩ | ⟨svc', left, rfl, -, rfl⟩ |
          ⟨-, -, rfl⟩
      · cases hop
      · cases hop
      · obtain ⟨rfl, rfl⟩ := Op.removeService.inj hop
        exact ⟨a, client', left, ha, hb⟩
      · cases hop
    · intro client hmem hgone
      have hop : op = .removeSession g client := by
        by_contra hop
        exact hgone (session_apply hmem hop)
      rcases drop_cases hd with ⟨rfl, -, rfl⟩ | ⟨-, -, rfl, -⟩ | ⟨svc', left, -, -, rfl⟩ |
          ⟨-, -, rfl⟩
      · obtain ⟨rfl, rfl⟩ := Op.removeSession.inj hop
        exact ⟨a, ha, hb⟩
      · cases hop
      · cases hop
      · cases hop
  · rw [hstate]
    constructor
    · intro svc hmem hgone
      refine absurd (mem_services_apply hmem ?_) hgone
      rintro rfl
      cases hact
    · intro client hmem hgone
      refine absurd (session_apply hmem ?_) hgone
      rintro rfl
      cases hact

end Effects

/-! ## A small server -/

/-- One group, and two clients that know its token. -/
def sampleState : ServerState := .new [⟨"home", "token"⟩] []

theorem sampleState_initial : sampleState.Initial :=
  ⟨[⟨"home", "token"⟩], [], by simp, .refl _, rfl, rfl⟩

def alice : EndpointId := ⟨.replicate 1⟩

def bob : EndpointId := ⟨.replicate 2⟩

/-- Accept connection `i` of `client` and answer its hello. -/
def joinEvents (i : ℕ) (client : EndpointId) (token : String) : List Event :=
  [.connect i client, .recv i (.frame (.hello ⟨token, "sample"⟩)) 7 0, .wrote i true]

theorem dropActor_joinEvents (i : ℕ) (client : EndpointId) (token : String) :
    ∀ e ∈ joinEvents i client token, e.dropActor = none := by
  simp [joinEvents, Event.dropActor]

/-- Register `svc` on connection `i`, confirmed. -/
def registerEvents (i : ℕ) (svc : String) : List Event :=
  [.recv i (.frame (.register ⟨svc⟩)) 0 0, .wrote i true]

/-- End connection `i`, whose clean-up finds `owned`. -/
def closeEvents (i : ℕ) (owned : List String) : List Event :=
  .recv i .closed 0 0 :: .cleanup i [] :: .cleanup i owned ::
    (owned.map fun _ => .cleanup i []) ++ [.cleanup i []]

end MeshlyCore.Control
