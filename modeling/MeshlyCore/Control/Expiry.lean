import MeshlyCore.Config
import MeshlyCore.Control.Server

/-!
# A client that keeps its beat

The client sends a heartbeat every 60 seconds. The sweeper drops a session that is older than the
timeout of the server's configuration, which may be anything from one second on: no check relates
the two.

**Theorem (`session_kept`).** If the timeout is at least the client's interval, and the sweeper
had not already found an older session of the client expired when its hello was handled, then a
client that keeps its beat is never found expired, whatever the others do.
-/

namespace MeshlyCore.Control

open Protocol Registry Machine Config

/-- How often the client sends a control-plane heartbeat. -/
def clientHeartbeatInterval : ℤ := fromSecs 60

variable {toStr : EndpointId → String} {w w' : Server} {e : Event}

/-- A sweep starts with the configured timeout. -/
def SweepsAfter (timeout : ℤ) (w : Server) (e : Event) : Prop :=
  w.sweeper = .idle → ∀ input, e = .sweep input → input.timeout = timeout

/-- The time of a heartbeat on connection `i`. -/
def Event.beat? (i : ℕ) : Event → Option Instant
  | .recv j (.frame .heartbeat) _ now => if j = i then some now else none
  | _ => none

/-- The heartbeats of connection `i` keep coming: never does more than an interval pass after the
last one, which was at `b`. -/
def Punctual (i : ℕ) : Instant → List Event → Prop
  | _, [] => True
  | b, e :: es => (∀ now, e.time? = some now → now ≤ b + clientHeartbeatInterval) ∧
      Punctual i ((e.beat? i).getD b) es

/-! ## Cutoffs -/

/-- The sweep under way started before now. -/
theorem cutoff_le_clock {timeout : ℤ} (h0 : 0 ≤ timeout) {st : ServerState} {es : List Event}
    (hrun : Run (Guarded (SweepsAfter timeout) (Steps toStr)) (Server.init st) es w)
    {cutoff : Instant} (hc : w.sweeper.cutoff? = some cutoff) : cutoff ≤ w.clock := by
  have key : ∀ cutoff, w.sweeper.cutoff? = some cutoff → cutoff ≤ w.clock := by
    refine Run.invariant
      (P := fun w : Server => ∀ cutoff, w.sweeper.cutoff? = some cutoff → cutoff ≤ w.clock)
      ?_ hrun (fun cutoff hc => by cases hc)
    intro u e v hstep hi cutoff hc
    obtain ⟨hguard, hstep⟩ := hstep
    obtain ⟨hclock, htime⟩ := clock_step hstep
    rcases sweeper_step hstep with hsame | ⟨input, op, rfl, hs, -⟩
    · rw [hsame] at hc
      exact (hi cutoff hc).trans hclock
    · rcases cutoff?_step hs hc with hold | ⟨hidle, rfl⟩
      · exact (hi cutoff hold).trans hclock
      · rw [htime input.now rfl, hguard hidle input rfl]
        exact Int.sub_le_self _ h0
  exact key cutoff hc

/-! ## The session stays fresh -/

/-- Connection `i` of `client` has joined `g` and its last beat was at `b`; its session, if it is
there, is no older, and no sweep is after it. -/
structure Fresh (i : ℕ) (g : String) (client : EndpointId) (b : Instant) (w : Server) :
    Prop where
  conn : ∃ c, w.conns i = some c ∧ c.remote = client ∧ c.phase.joined = some g
  clock : b ≤ w.clock
  session : ∀ s, (w.state.groups g).sessions.lookup client = some s → b ≤ s.lastHeartbeat
  cutoff : ∀ cutoff, w.sweeper.cutoff? = some cutoff → cutoff ≤ b
  marked : ∀ cutoff clients, w.sweeper.marked = some (cutoff, g, clients) → client ∉ clients

variable {i : ℕ} {g : String} {client : EndpointId} {b : Instant}

theorem time?_of_beats {now : Instant} (h : Beats w e i client g now) : e.time? = some now := by
  obtain ⟨input, sid, c, rfl, -⟩ := h
  rfl

/-- A heartbeat on a connection that has joined is a beat in its group. -/
theorem session_of_beat (h : Steps toStr w e w') (hi : Fresh i g client b w) {now : Instant}
    (hb : e.beat? i = some now) :
    (w'.state.groups g).sessions.lookup client = some ⟨now⟩ ∧ w'.sweeper = w.sweeper := by
  obtain ⟨c, hc, rfl, hjoined⟩ := hi.conn
  rcases next_cases h with ⟨_, _, rfl, -⟩ | ⟨j, input, sid, now', d, d', op, rfl, hj, hd, rfl⟩ |
      ⟨_, _, _, _, rfl, -⟩ | ⟨_, _, _, _, _, rfl, -⟩ | ⟨_, _, _, rfl, -⟩
  · cases hb
  · obtain ⟨rfl, rfl, rfl⟩ : j = i ∧ input = .frame .heartbeat ∧ now' = now := by
      revert hb
      unfold Event.beat?
      split <;> simp_all
    rw [hc] at hj
    obtain rfl := Option.some.inj hj
    -- A session that gets a frame after it has joined is in the main loop.
    cases hp : c.phase with
    | awaitHello => simp [hp, Phase.joined] at hjoined
    | ready g' =>
      obtain rfl : g' = g := by simpa [hp, Phase.joined] using hjoined
      simp only [Conn.recv, hp, handleCommand, Option.some.injEq, Prod.mk.injEq] at hd
      obtain ⟨-, rfl⟩ := hd
      refine ⟨?_, rfl⟩
      show ((Op.apply w.state (.touchSession g' c.remote now')).groups g').sessions.lookup
        c.remote = _
      rw [sessions_apply]
      simp only [if_true, Finmap.lookup_insert]
    | _ => simp [Conn.recv, hp] at hd
  · cases hb
  · cases hb
  · cases hb

/-- A step within an interval of the last beat keeps the session fresh. -/
theorem fresh_step {timeout : ℤ} (hle : clientHeartbeatInterval ≤ timeout)
    (h : Steps toStr w e w') (hguard : SweepsAfter timeout w e)
    (htime : ∀ now, e.time? = some now → now ≤ b + clientHeartbeatInterval)
    (hi : Fresh i g client b w) : Fresh i g client ((e.beat? i).getD b) w' := by
  obtain ⟨hclock, hnow⟩ := clock_step h
  have hconn : ∃ c, w'.conns i = some c ∧ c.remote = client ∧ c.phase.joined = some g := by
    obtain ⟨c, hc, hremote, hjoined⟩ := hi.conn
    obtain ⟨c', hc', hmoves⟩ := conns_step h hc
    exact ⟨c', hc', hmoves.1.trans hremote, hmoves.2.1 g hjoined⟩
  cases hb : e.beat? i with
  | some now =>
    obtain ⟨hs, hsweeper⟩ := session_of_beat h hi hb
    have hbeat : e.time? = some now := by
      revert hb
      unfold Event.beat?
      split <;> simp_all [Event.time?]
    have hbnow : b ≤ now := by
      rw [← hnow now hbeat]
      exact hi.clock.trans hclock
    refine ⟨hconn, (hnow now hbeat).ge, ?_, ?_, ?_⟩
    · intro s hs'
      rw [hs] at hs'
      obtain rfl := Option.some.inj hs'
      exact le_refl now
    · intro cutoff hc
      rw [hsweeper] at hc
      exact (hi.cutoff cutoff hc).trans hbnow
    · rw [hsweeper]
      exact hi.marked
  | none =>
    have hcutoff : ∀ cutoff, w'.sweeper.cutoff? = some cutoff → cutoff ≤ b := by
      intro cutoff hc
      rcases sweeper_step h with hsame | ⟨input, op, rfl, hs, -⟩
      · rw [hsame] at hc
        exact hi.cutoff cutoff hc
      · rcases cutoff?_step hs hc with hold | ⟨hidle, rfl⟩
        · exact hi.cutoff cutoff hold
        · -- A sweep that starts now is too early to find anything as old as the last beat.
          have := htime input.now rfl
          rw [hguard hidle input rfl]
          linarith
    refine ⟨hconn, hi.clock.trans hclock, ?_, hcutoff, ?_⟩
    · intro s hs
      rcases heartbeat_of_step h hs with hs | ⟨j, hbeats⟩
      · exact hi.session s hs
      · rw [Option.getD_none, ← hnow _ (time?_of_beats hbeats)]
        exact hi.clock.trans hclock
    · intro cutoff clients hm hmem
      rcases sweeper_step h with hsame | ⟨input, op, rfl, hs, -⟩
      · rw [hsame] at hm
        exact hi.marked cutoff clients hm hmem
      · rcases marked_step hs hm with ⟨old, hold, hsub⟩ | ⟨-, hexpired⟩
        · exact hi.marked cutoff old hold (hsub hmem)
        · obtain ⟨s, hs, hlt⟩ := mem_expired.1 (hexpired client hmem)
          have hb := hi.session s hs
          have hc := hcutoff cutoff (cutoff?_of_marked hm)
          exact absurd hlt (not_lt.2 (hc.trans hb))

/-- While the beats keep coming, the session stays fresh. -/
theorem fresh_run {timeout : ℤ} (hle : clientHeartbeatInterval ≤ timeout) {es : List Event}
    (hrun : Run (Guarded (SweepsAfter timeout) (Steps toStr)) w es w') (hp : Punctual i b es)
    (hi : Fresh i g client b w) : ∃ b', Fresh i g client b' w' := by
  induction hrun generalizing b with
  | nil w => exact ⟨b, hi⟩
  | cons hstep _ ih => exact ih hp.2 (fresh_step hle hstep.2 hstep.1 hp.1 hi)

/-- The sweeper leaves a fresh session alone. -/
theorem sweep_keeps {input : SweepInput} (h : Steps toStr w (.sweep input) w')
    (hi : Fresh i g client b w) {s : Session}
    (hs : (w.state.groups g).sessions.lookup client = some s) :
    (w'.state.groups g).sessions.lookup client = some s := by
  have hstay : client ∈ (w'.state.groups g).sessions := by
    by_contra hgone
    obtain ⟨a, ha, hdrop⟩ :=
      (drops_of_removed h).2 client (Finmap.mem_of_lookup_eq_some hs) hgone
    obtain rfl := Option.some.inj ha
    obtain ⟨cutoff, entries, dead, hsw⟩ := dropping_of_drop? hdrop
    refine hi.marked cutoff (client :: dead) ?_ List.mem_cons_self
    rw [hsw]
    rfl
  obtain ⟨s', hs'⟩ := Option.isSome_iff_exists.1 (Finmap.lookup_isSome.2 hstay)
  rcases heartbeat_of_step h hs' with hold | ⟨j, input', sid, c, he, -⟩
  · rw [hs', ← hold, hs]
  · cases he

/-- The hello that a session starts with. -/
theorem fresh_hello {hello : Hello} {sid : UInt64} {now : Instant} {c : Conn}
    (h : Steps toStr w (.recv i (.frame (.hello hello)) sid now) w') (hc : w.conns i = some c)
    (hremote : c.remote = client) (hphase : c.phase = .awaitHello)
    (hauth : w.state.authenticate hello.groupToken = some g)
    (hcutoff : ∀ cutoff, w.sweeper.cutoff? = some cutoff → cutoff ≤ w.clock)
    (hmarked : ∀ cutoff clients, w.sweeper.marked = some (cutoff, g, clients) →
      client ∉ clients) : Fresh i g client now w' := by
  obtain ⟨hclock, hnow⟩ := clock_step h
  have hnow := hnow now rfl
  rcases next_cases h with ⟨_, _, he, -⟩ | ⟨j, input, sid', now', d, d', op, he, hj, hd, rfl⟩ |
      ⟨_, _, _, _, he, -⟩ | ⟨_, _, _, _, _, he, -⟩ | ⟨_, _, _, he, -⟩
  · cases he
  · cases he
    rw [hc] at hj
    obtain rfl := Option.some.inj hj
    simp only [Conn.recv, hphase, handleHello, hauth, Option.some.injEq, Prod.mk.injEq] at hd
    obtain ⟨rfl, rfl⟩ := hd
    refine ⟨⟨_, conns_setConn_self i _, hremote, rfl⟩, le_refl now, ?_, ?_, hmarked⟩
    · intro s hs
      change ((Op.apply w.state (.touchSession g c.remote now)).groups g).sessions.lookup
        client = _ at hs
      rw [sessions_apply, hremote] at hs
      simp only [if_true, Finmap.lookup_insert] at hs
      obtain rfl := Option.some.inj hs
      exact le_refl now
    · intro cutoff hcut
      exact (hcutoff cutoff hcut).trans hclock
  · cases he
  · cases he
  · cases he

/-- **A client that keeps its beat keeps its session**, if the timeout is not below the client's
interval and no sweep was about to drop an older session of the client when its hello came. -/
theorem session_kept {cfg : RootConfig}
    (htimeout : clientHeartbeatInterval ≤ cfg.heartbeatTimeout) {st : ServerState}
    {before es : List Event} {w₀ w₁ : Server} {hello : Hello} {sid : UInt64} {now : Instant}
    {c : Conn} {input : SweepInput} {s : Session}
    (hbefore : Run (Guarded (SweepsAfter cfg.heartbeatTimeout) (Steps toStr)) (Server.init st)
      before w₀)
    (hhello : Steps toStr w₀ (.recv i (.frame (.hello hello)) sid now) w₁)
    (hc : w₀.conns i = some c) (hphase : c.phase = .awaitHello)
    (hauth : w₀.state.authenticate hello.groupToken = some g)
    (hmarked : ∀ cutoff clients, w₀.sweeper.marked = some (cutoff, g, clients) →
      c.remote ∉ clients)
    (hrun : Run (Guarded (SweepsAfter cfg.heartbeatTimeout) (Steps toStr)) w₁ es w)
    (hpunctual : Punctual i now es) (hsweep : Steps toStr w (.sweep input) w')
    (hs : (w.state.groups g).sessions.lookup c.remote = some s) :
    (w'.state.groups g).sessions.lookup c.remote = some s := by
  have h0 : (0 : ℤ) ≤ cfg.heartbeatTimeout := le_trans (by decide) htimeout
  have hfresh := fresh_hello hhello hc rfl hphase hauth
    (fun cutoff hcut => cutoff_le_clock h0 hbefore hcut) hmarked
  obtain ⟨b, hfresh⟩ := fresh_run htimeout hrun hpunctual hfresh
  exact sweep_keeps hsweep hfresh hs

/-! ## Two timeouts -/

/-- One group, and the default timeout. -/
def defaultConfig : RootConfig := { groups := [⟨"home", "token"⟩] }

/-- The same with half of the client's interval, which is accepted as well. -/
def hastyConfig : RootConfig := { defaultConfig with heartbeat := ⟨30, 30⟩ }

def noPaths : Paths := ⟨fun _ => false, fun _ => false⟩

/-- The server, with a connection of alice. -/
def connected : Server := (Server.init sampleState).setConn 0 ⟨alice, .awaitHello, []⟩

def sampleHello : Event := .recv 0 (.frame (.hello ⟨"token", "sample"⟩)) 7 0

theorem step_sampleHello : (Server.next Iroh.hex.toStr connected sampleHello).isSome := by
  decide

/-- The hello is handled at time 0. -/
def welcomed : Server := Option.get _ step_sampleHello

/-- A sweep that starts after `secs` seconds. -/
def sweepAfter (secs : ℕ) (timeout : ℤ) (dead : List EndpointId) : Event :=
  .sweep ⟨fromSecs secs, timeout, fun _ => [⟨"web", ⟨alice⟩⟩], dead, []⟩

/-- A service, a heartbeat after a minute, and a sweep 40 seconds later. -/
def steadyEvents : List Event :=
  .wrote 0 true :: registerEvents 0 "web" ++
    [.recv 0 (.frame .heartbeat) 0 (fromSecs 60), sweepAfter 100 (fromSecs 90) []]

theorem exec_steadyEvents :
    (exec (Server.next Iroh.hex.toStr) welcomed steadyEvents).isSome := by
  decide

def steady : Server := Option.get _ exec_steadyEvents

theorem step_steady :
    (Server.next Iroh.hex.toStr steady (sweepAfter 100 (fromSecs 90) [])).isSome := by
  decide

theorem sweepsAfter_of_mem {timeout : ℤ} {es : List Event}
    (h : ∀ input, .sweep input ∈ es → input.timeout = timeout) :
    ∀ e ∈ es, ∀ w, SweepsAfter timeout w e := by
  intro e he w _ input heq
  subst heq
  exact h input he

theorem run_connected {timeout : ℤ} :
    Run (Guarded (SweepsAfter timeout) (Steps Iroh.hex.toStr)) (Server.init sampleState)
      [.connect 0 alice] connected := by
  refine .cons ⟨?_, rfl⟩ (.nil _)
  intro _ input he
  cases he

/-- With the default timeout the sweep leaves alice alone. -/
theorem session_kept_steady :
    ∃ w', Steps Iroh.hex.toStr steady (sweepAfter 100 (fromSecs 90) []) w' ∧
      (w'.state.groups "home").sessions.lookup alice = some ⟨fromSecs 60⟩ := by
  have hsweeps : ∀ input, .sweep input ∈ steadyEvents →
      input.timeout = defaultConfig.heartbeatTimeout := by
    intro input h
    have hin : input = ⟨fromSecs 100, fromSecs 90, fun _ => [⟨"web", ⟨alice⟩⟩], [], []⟩ := by
      simpa [steadyEvents, registerEvents, sweepAfter] using h
    rw [hin]
    decide
  have hrun := (run_of_exec (Option.some_get exec_steadyEvents).symm).guarded
    (sweepsAfter_of_mem hsweeps)
  have hpunctual : Punctual 0 0 steadyEvents := by
    simp [steadyEvents, registerEvents, sweepAfter, Punctual, Event.time?, Event.beat?,
      clientHeartbeatInterval, fromSecs]
  have hstep := (Option.some_get step_steady).symm
  have htimeout : clientHeartbeatInterval ≤ defaultConfig.heartbeatTimeout := by decide
  refine ⟨_, hstep, ?_⟩
  exact session_kept htimeout run_connected
    (Option.some_get step_sampleHello).symm rfl rfl (by decide) (fun _ _ hm => by cases hm) hrun
    hpunctual hstep (by decide)

/-- A sweep half a minute after the hello, up to where it is about to drop the session. -/
def hastyEvents : List Event :=
  .wrote 0 true :: registerEvents 0 "web" ++
    [sweepAfter 31 (fromSecs 30) [], sweepAfter 31 (fromSecs 30) [alice],
      sweepAfter 31 (fromSecs 30) []]

theorem exec_hastyEvents :
    (exec (Server.next Iroh.hex.toStr) welcomed hastyEvents).isSome := by
  decide

def hasty : Server := Option.get _ exec_hastyEvents

theorem step_hasty :
    (Server.next Iroh.hex.toStr hasty (sweepAfter 31 (fromSecs 30) [])).isSome := by
  decide

/-- An accepted configuration under which a client loses its session half a minute after its
hello, with no heartbeat due and its connection in the main loop. -/
theorem session_lost_hasty :
    hastyConfig.validate Iroh.hex noPaths = .ok () ∧
      ∃ w', Run (Guarded (SweepsAfter hastyConfig.heartbeatTimeout) (Steps Iroh.hex.toStr))
          (Server.init (hastyConfig.serverState Iroh.hex))
          (.connect 0 alice :: sampleHello :: hastyEvents) hasty ∧
        Punctual 0 0 (hastyEvents ++ [sweepAfter 31 (fromSecs 30) []]) ∧
        Steps Iroh.hex.toStr hasty (sweepAfter 31 (fromSecs 30) []) w' ∧
        (hasty.state.groups "home").sessions.lookup alice = some ⟨0⟩ ∧
        (w'.conns 0).map Conn.phase = some (.ready "home") ∧
        alice ∉ (w'.state.groups "home").sessions := by
  have hsweeps : ∀ input, .sweep input ∈ hastyEvents →
      input.timeout = hastyConfig.heartbeatTimeout := by
    have htimeout : hastyConfig.heartbeatTimeout = fromSecs 30 := by decide
    intro input h
    simp only [hastyEvents, registerEvents, sweepAfter, List.cons_append, List.nil_append,
      List.mem_cons, List.not_mem_nil, or_false, reduceCtorEq, false_or, Event.sweep.injEq] at h
    rcases h with rfl | rfl | rfl <;> exact htimeout.symm
  have hrun := (run_of_exec (Option.some_get exec_hastyEvents).symm).guarded
    (sweepsAfter_of_mem hsweeps)
  have hhello : SweepsAfter hastyConfig.heartbeatTimeout connected sampleHello := by
    intro _ input he
    cases he
  refine ⟨by decide, _,
    run_connected.append (.cons ⟨hhello, (Option.some_get step_sampleHello).symm⟩ hrun),
    ?_, (Option.some_get step_hasty).symm, by decide, by decide, by decide⟩
  simp [hastyEvents, registerEvents, sweepAfter, Punctual, Event.time?, Event.beat?,
    clientHeartbeatInterval, fromSecs]

end MeshlyCore.Control
