import MeshlyCore.Control.Server

/-!
# How long a registration lasts

A client that has `RegisterOk` for a service and keeps its connection open may expect to be
found under that name until someone else registers it or the sweeper gives the client up. The
registry is keyed by client, and a client has several connections: the end of any of them drops
all services of the client. And a drop first scans and then removes, so it may also remove a
record that another client has put under the name in between.

**Theorem (`lookupService_of_registerOk`).** These two are the only ways to lose a
registration. In every run in which no drop removes a record that is no longer its client's, and
no clean-up removes a record while another connection of its client is served in the group, a
registration lasts as long as its connection.
-/

namespace MeshlyCore.Control

open Protocol Registry Machine

variable {toStr : EndpointId → String}

/-- Another connection than `a` of `client` is served in group `g`. -/
def ServedElsewhere (w : Server) (a : Actor) (g : String) (client : EndpointId) : Prop :=
  ∃ i c, a ≠ .conn i ∧ w.conns i = some c ∧ c.remote = client ∧ c.phase.serving = some g

/-- A drop whose next operation removes the record of `svc` removes one of its own client; and
if it is the clean-up of a connection, that client is not served on another one. -/
def Orderly (w : Server) (e : Event) : Prop :=
  ∀ a g client svc left r, e.dropActor = some a →
    w.drop? a = some (g, client, .remove (svc :: left)) →
    (w.state.groups g).services.lookup svc = some r →
    r.providerId = client ∧ (a ≠ .sweeper → ¬ServedElsewhere w a g client)

/-- Connection `i` of `client`, in group `g`, has a `Register` for `svc` accepted. -/
def Registers (w : Server) (e : Event) (i : ℕ) (client : EndpointId) (g svc : String) : Prop :=
  ∃ sid now c, e = .recv i (.frame (.register ⟨svc⟩)) sid now ∧ (utf8 svc).length ≤ 32 ∧
    w.conns i = some c ∧ c.phase = .ready g ∧ c.remote = client

/-- Nobody else registers `svc`, and the sweeper does not give up `client`. -/
def Undisturbed (g svc : String) (client : EndpointId) (w : Server) (e : Event) : Prop :=
  (∀ i other, Registers w e i other g svc → other = client) ∧
    (e.dropActor = some .sweeper → ∀ d, w.sweeper.drop? ≠ some (g, client, d))

/-! ## The registration is kept -/

/-- Connection `i` of `client` has joined `g`, and while it is served `svc` is its client's. -/
def Kept (i : ℕ) (client : EndpointId) (g svc : String) (w : Server) : Prop :=
  g ∈ w.state.tokens ∧ ∃ c, w.conns i = some c ∧ c.remote = client ∧ c.phase.joined = some g ∧
    (c.phase.serving = some g → (w.state.groups g).services.lookup svc = some ⟨client⟩)

theorem kept_step {i : ℕ} {client : EndpointId} {g svc : String} {w w' : Server} {e : Event}
    (h : Steps toStr w e w') (hord : Orderly w e) (hund : Undisturbed g svc client w e)
    (hk : Kept i client g svc w) : Kept i client g svc w' := by
  obtain ⟨hg, c, hc, hremote, hjoined, hlookup⟩ := hk
  obtain ⟨c', hc', hmove⟩ := conns_step h hc
  refine ⟨by rwa [tokens_step h], c', hc', hmove.1.trans hremote, hmove.2.1 g hjoined, ?_⟩
  intro hserving'
  have hserving : c.phase.serving = some g := hmove.2.2 g hjoined hserving'
  have hr := hlookup hserving
  rcases step_effect h with ⟨a, g', client', d, d', op, hactor, hda, ⟨scanned, hd⟩, hstate, -⟩ |
      ⟨op, hstate, hact, -⟩
  · rw [hstate]
    refine service_apply hr (fun p hp => absurd hp ((drop_op hd).2 _ _ _)) ?_
    -- Only a removal of `svc` itself could harm, and an orderly one does not come to it.
    rintro rfl
    rcases drop_cases hd with ⟨-, -, hop⟩ | ⟨-, -, hop, -⟩ | ⟨svc', left, rfl, -, hop⟩ | ⟨-, -, hop⟩
    · cases hop
    · cases hop
    · obtain ⟨rfl, rfl⟩ := Op.removeService.inj hop
      obtain ⟨hown, hother⟩ := hord a g client' svc left ⟨client⟩ hactor hda hr
      cases a with
      | conn j =>
        refine hother (by simp) ⟨i, c, ?_, hc, hremote.trans hown, hserving⟩
        intro hji
        obtain rfl := Actor.conn.inj hji
        rw [Server.drop?, hc, Option.bind_some, drop?_of_serving hserving] at hda
        cases hda
      | sweeper => exact hund.2 hactor _ (by rw [← hown] at hda; exact hda)
    · cases hop
  · rw [hstate]
    refine service_apply hr ?_ ?_
    · rintro p rfl
      obtain ⟨j, cj, -, sid, now, he, hlen, hj, hp, hrj, -⟩ := hact.of_insert
      exact hund.1 j p ⟨sid, now, cj, he, hlen, hj, hp, hrj⟩
    · rintro rfl
      cases hact

/-- The group a connection has joined exists. -/
def GroupsKnown (w : Server) : Prop :=
  ∀ i c g, w.conns i = some c → c.phase.joined = some g → g ∈ w.state.tokens

theorem groupsKnown_step {w w' : Server} {e : Event} (h : Steps toStr w e w')
    (hi : GroupsKnown w) : GroupsKnown w' := by
  intro i c' g hc' hjoined
  rw [tokens_step h]
  rcases conns_of_step h hc' with ⟨remote, -, rfl⟩ | ⟨c, hc, hmove⟩
  · cases hjoined
  cases hold : c.phase.joined with
  | some g₀ =>
    obtain ⟨c'', hc'', hmoves⟩ := conns_step h hc
    rw [hc'] at hc''
    obtain rfl := Option.some.inj hc''
    have hsame := hmoves.2.1 g₀ hold
    rw [hjoined] at hsame
    obtain rfl := Option.some.inj hsame
    exact hi i c g hc hold
  | none =>
    -- A connection joins a group only by a hello that names one.
    rcases hmove with rfl | ⟨input, sid, now, op, -, hrecv⟩ | ⟨ok, hwrote, -⟩ |
        ⟨scanned, op, hclean, -⟩
    · rw [hold] at hjoined
      cases hjoined
    · rcases recv_cases hrecv with ⟨g', -, hg', hp, -⟩ | ⟨-, hp, -⟩ | ⟨_, _, hp, -⟩ | ⟨_, hp, -⟩ |
          ⟨_, hp, -⟩ | ⟨_, hp, -⟩
      · rw [hp] at hjoined
        obtain rfl := Option.some.inj hjoined
        exact hg'
      · rw [hp] at hjoined
        cases hjoined
      all_goals rw [hp] at hold; cases hold
    · rcases (wrote_cases hwrote).2 with ⟨-, hp, -⟩ | ⟨_, _, _, hp, -⟩ | ⟨_, _, -, hp, -⟩
      · rw [hp] at hjoined
        cases hjoined
      all_goals rw [hp] at hold; cases hold
    · obtain ⟨g', d, d', hp, -⟩ := cleanup_cases hclean
      rw [hp] at hold
      cases hold

theorem groupsKnown_run {st : ServerState} {es : List Event} {w : Server}
    (hrun : Run (Steps toStr) (Server.init st) es w) : GroupsKnown w :=
  hrun.invariant (fun _ _ _ hs hi => groupsKnown_step hs hi) (by intro i c g hc; cases hc)

/-- An accepted registration makes its client the provider. -/
theorem kept_of_registers {i : ℕ} {client : EndpointId} {g svc : String} {w w' : Server}
    {e : Event} (h : Steps toStr w e w') (hknown : GroupsKnown w)
    (hreg : Registers w e i client g svc) : Kept i client g svc w' := by
  obtain ⟨sid, now, c, rfl, hlen, hc, hp, rfl⟩ := hreg
  have hg : g ∈ w.state.tokens := hknown i c g hc (by rw [hp]; rfl)
  obtain ⟨c', hc', hmove⟩ := conns_step h hc
  refine ⟨by rwa [tokens_step h], c', hc', hmove.1, hmove.2.1 g (by rw [hp]; rfl), fun _ => ?_⟩
  rw [state_of_register h rfl hc hp hlen]
  exact service_insertService

/-! ## Every confirmation has a registration -/

/-- `RegisterOk` for `svc` was written, or is being written. -/
def Confirms (svc : String) (c : Conn) : Prop :=
  .registerOk ⟨svc⟩ ∈ c.sent ∨ ∃ g p, c.phase = .replying g (.registerOk ⟨svc⟩) p

theorem confirms_step {w w' : Server} {e : Event} (h : Steps toStr w e w') {i : ℕ} {svc : String}
    {c' : Conn} (hc' : w'.conns i = some c') (hconf : Confirms svc c') :
    (∃ c, w.conns i = some c ∧ Confirms svc c) ∨
      ∃ g, Registers w e i c'.remote g svc ∧ c'.phase.joined = some g := by
  rcases conns_of_step h hc' with ⟨remote, -, rfl⟩ | ⟨c, hc, hmove⟩
  · rcases hconf with hsent | ⟨g, p, hp⟩
    · cases hsent
    · cases hp
  rcases hmove with rfl | ⟨input, sid, now, op, he, hrecv⟩ | ⟨ok, hwrote, -⟩ |
      ⟨scanned, op, hclean, -⟩
  · exact .inl ⟨c', hc, hconf⟩
  · obtain ⟨hremote, hsent⟩ := recv_remote hrecv
    rcases hconf with hmem | ⟨g, p, hp⟩
    · exact .inl ⟨c, hc, .inl (hsent ▸ hmem)⟩
    · right
      rcases recv_cases hrecv with ⟨_, -, -, hp', -⟩ | ⟨-, hp', -⟩ |
          ⟨g', svc', hready, rfl, hlen, hp', -⟩ | ⟨_, -, hp', -⟩ | ⟨_, -, hp', -⟩ |
          ⟨_, -, -, -, hp'⟩
      · rw [hp] at hp'
        cases hp'
      · rw [hp] at hp'
        cases hp'
      · rw [hp] at hp'
        cases hp'
        exact ⟨g, ⟨sid, now, c, he, hlen, hc, hready, hremote.symm⟩, by rw [hp]; rfl⟩
      · rw [hp] at hp'
        cases hp'
      · rw [hp] at hp'
        cases hp'
      · exact absurd hp (hp' _ _ _)
  · left
    refine ⟨c, hc, ?_⟩
    rcases (wrote_cases hwrote).2 with ⟨-, hp', hsent⟩ | ⟨g, reply, p, hp, hp', hsent⟩ |
        ⟨g, reply, -, hp, hp', hsent⟩
    · rcases hconf with hmem | ⟨_, _, hq⟩
      · rcases hsent with hsent | hsent <;> rw [hsent] at hmem
        · exact .inl hmem
        · exact .inl (by simpa [unknownGroup] using hmem)
      · rw [hp'] at hq
        cases hq
    · rcases hconf with hmem | ⟨_, _, hq⟩
      · rcases hsent with hsent | hsent <;> rw [hsent] at hmem
        · exact .inl hmem
        · rcases List.mem_append.1 hmem with hmem | hmem
          · exact .inl hmem
          · rw [List.mem_singleton] at hmem
            exact .inr ⟨g, p, by rw [hp, hmem]⟩
      · rw [hp'] at hq
        cases hq
    · rcases hconf with hmem | ⟨_, _, hq⟩
      · exact .inl (hsent ▸ hmem)
      · rw [hp'] at hq
        cases hq
  · obtain ⟨g, d, d', -, -, -, hsent, hp'⟩ := cleanup_cases hclean
    rcases hconf with hmem | ⟨g', p, hp⟩
    · exact .inl ⟨c, hc, .inl (hsent ▸ hmem)⟩
    · rcases hp' with ⟨_, -, hp'⟩ | ⟨-, hp'⟩ <;> rw [hp] at hp' <;> cases hp'

/-- A confirmation on connection `i` goes back to a registration on it. -/
theorem registers_of_confirms {st : ServerState} {i : ℕ} {svc : String} {es : List Event}
    {w : Server} (hrun : Run (Guarded Orderly (Steps toStr)) (Server.init st) es w) :
    ∀ c, w.conns i = some c → Confirms svc c →
      ∃ es₀ e es₁ w₀ g, es = es₀ ++ e :: es₁ ∧
        Run (Guarded Orderly (Steps toStr)) (Server.init st) es₀ w₀ ∧
        Registers w₀ e i c.remote g svc ∧ c.phase.joined = some g := by
  refine Run.snoc_induction ?_ ?_ hrun
  · intro c hc
    cases hc
  · intro es w e w' hrun ih hstep c' hc' hconf
    rcases confirms_step hstep.2 hc' hconf with ⟨c, hc, hc₀⟩ | ⟨g, hreg, hjoined⟩
    · obtain ⟨es₀, e₀, es₁, w₀, g, rfl, hrun₀, hreg, hjoined⟩ := ih c hc hc₀
      obtain ⟨c'', hc'', hmove⟩ := conns_step hstep.2 hc
      rw [hc'] at hc''
      obtain rfl := Option.some.inj hc''
      refine ⟨es₀, e₀, es₁ ++ [e], w₀, g, by simp, hrun₀, ?_, hmove.2.1 g hjoined⟩
      rwa [hmove.1]
    · exact ⟨es, e, [], w, g, by simp, hrun, hreg, hjoined⟩

/-- **A registration lasts as long as its connection.** In an orderly run, `RegisterOk` on an
open connection goes back to a registration on that connection; and after every registration on
it, as long as nobody else registers the name and the sweeper does not give the client up, the
name is found at the client. -/
theorem lookupService_of_registerOk {st : ServerState} {es : List Event} {w : Server}
    (hrun : Run (Guarded Orderly (Steps toStr)) (Server.init st) es w) {i : ℕ} {c : Conn}
    {g svc : String} (hc : w.conns i = some c) (hserving : c.phase.serving = some g)
    (hsent : .registerOk ⟨svc⟩ ∈ c.sent) :
    (∃ es₀ e es₁ w₀, es = es₀ ++ e :: es₁ ∧
      Run (Guarded Orderly (Steps toStr)) (Server.init st) es₀ w₀ ∧
      Registers w₀ e i c.remote g svc) ∧
    ∀ es₀ e es₁ w₀ w₁, Run (Guarded Orderly (Steps toStr)) (Server.init st) es₀ w₀ →
      Registers w₀ e i c.remote g svc → Steps toStr w₀ e w₁ →
      Run (Guarded Orderly (Guarded (Undisturbed g svc c.remote) (Steps toStr))) w₁ es₁ w →
      w.state.lookupService g svc = some c.remote := by
  constructor
  · obtain ⟨es₀, e, es₁, w₀, g', hes, hrun₀, hreg, hjoined⟩ :=
      registers_of_confirms hrun c hc (.inl hsent)
    rw [Phase.joined_of_serving hserving] at hjoined
    obtain rfl := Option.some.inj hjoined
    exact ⟨es₀, e, es₁, w₀, hes, hrun₀, hreg⟩
  · intro es₀ e es₁ w₀ w₁ hrun₀ hreg hstep hrun₁
    have hknown : GroupsKnown w₀ := groupsKnown_run (hrun₀.mono fun _ _ _ h => h.2)
    have hkept : Kept i c.remote g svc w :=
      hrun₁.invariant (P := Kept i c.remote g svc)
        (fun _ _ _ hs hk => kept_step hs.2.2 hs.1 hs.2.1 hk) (kept_of_registers hstep hknown hreg)
    obtain ⟨hg, c', hc', -, -, hlookup⟩ := hkept
    rw [hc] at hc'
    obtain rfl := Option.some.inj hc'
    rw [ServerState.lookupService, ServerState.group, if_pos hg, Option.bind_some,
      hlookup hserving, Option.map_some]

/-! ## A client with two connections -/

theorem orderly_of_no_drop {e : Event} (h : e.dropActor = none) (w : Server) : Orderly w e := by
  intro a g client svc left r ha
  rw [h] at ha
  cases ha

theorem undisturbed_of_ne {e : Event}
    (h : ∀ i svc sid now, e ≠ .recv i (.frame (.register svc)) sid now)
    (hsweep : e.dropActor ≠ some .sweeper) (g svc : String) (client : EndpointId) (w : Server) :
    Undisturbed g svc client w e :=
  ⟨fun _ _ ⟨_, _, _, he, _⟩ => absurd he (h _ _ _ _), fun hs => absurd hs hsweep⟩

def registerWeb : Event := .recv 0 (.frame (.register ⟨"web"⟩)) 0 0

/-- The server when Alice has joined on connection 0, and when she has registered a service. -/
def aliceJoined : Server :=
  (exec (Server.next Iroh.hex.toStr) (Server.init sampleState)
    (joinEvents 0 alice "token")).get (by decide)

def aliceRegistered : Server := (Server.next Iroh.hex.toStr aliceJoined registerWeb).get (by decide)

theorem run_aliceJoined :
    Run (Steps Iroh.hex.toStr) (Server.init sampleState) (joinEvents 0 alice "token") aliceJoined :=
  run_of_exec (Option.some_get _).symm

theorem step_aliceRegistered : Steps Iroh.hex.toStr aliceJoined registerWeb aliceRegistered :=
  (Option.some_get _).symm

theorem registers_alice : Registers aliceJoined registerWeb 0 alice "home" "web" :=
  ⟨0, 0, _, rfl, by decide, rfl, rfl, rfl⟩

/-- Bob joins while Alice stays. -/
def bobEvents : List Event := .wrote 0 true :: joinEvents 1 bob "token"

def bobJoined : Server :=
  (exec (Server.next Iroh.hex.toStr) aliceRegistered bobEvents).get (by decide)

theorem run_bobJoined : Run (Steps Iroh.hex.toStr) aliceRegistered bobEvents bobJoined :=
  run_of_exec (Option.some_get _).symm

theorem lookupService_bobJoined : bobJoined.state.lookupService "home" "web" = some alice := by
  have hhead := run_aliceJoined.guarded fun e he =>
    orderly_of_no_drop (dropActor_joinEvents 0 alice "token" e he)
  have hstep : Guarded Orderly (Steps Iroh.hex.toStr) aliceJoined registerWeb aliceRegistered :=
    ⟨orderly_of_no_drop rfl _, step_aliceRegistered⟩
  have hno : ∀ e ∈ bobEvents, e.dropActor = none :=
    List.forall_mem_cons.2 ⟨rfl, dropActor_joinEvents 1 bob "token"⟩
  have htail := run_bobJoined.guarded fun e he => orderly_of_no_drop (hno e he)
  have hcalm : ∀ e ∈ bobEvents, ∀ w, Undisturbed "home" "web" alice w e := by
    refine fun e he w => undisturbed_of_ne ?_ (by simp [hno e he]) _ _ _ _
    rintro i svc sid now rfl
    revert he
    simp [bobEvents, joinEvents]
  exact (lookupService_of_registerOk (hhead.append (.cons hstep htail)) (i := 0) rfl rfl
    (by decide)).2 _ _ _ _ _ hhead registers_alice step_aliceRegistered
      ((run_bobJoined.guarded hcalm).guarded fun e he => orderly_of_no_drop (hno e he))

/-- Alice opens a second connection and closes it again. -/
def secondEvents : List Event :=
  .wrote 0 true :: joinEvents 1 alice "token" ++ closeEvents 1 ["web"]

def secondClosed : Server :=
  (exec (Server.next Iroh.hex.toStr) aliceRegistered secondEvents).get (by decide)

/-- Her first connection is open, she was told that her service is registered, nobody else has
registered it, nothing has expired, and the service is gone. -/
theorem secondClosed_unregistered :
    Run (Steps Iroh.hex.toStr) (Server.init sampleState)
        (joinEvents 0 alice "token" ++ [registerWeb]) aliceRegistered ∧
      Run (Guarded (Undisturbed "home" "web" alice) (Steps Iroh.hex.toStr)) aliceRegistered
        secondEvents secondClosed ∧
      (∃ c, secondClosed.conns 0 = some c ∧ c.remote = alice ∧ c.phase.serving = some "home" ∧
        .registerOk ⟨"web"⟩ ∈ c.sent) ∧
      secondClosed.state.lookupService "home" "web" = none := by
  have hrun : Run (Steps Iroh.hex.toStr) aliceRegistered secondEvents secondClosed :=
    run_of_exec (Option.some_get _).symm
  refine ⟨run_aliceJoined.snoc step_aliceRegistered,
    hrun.guarded fun e he w => undisturbed_of_ne ?_ ?_ _ _ _ _, ⟨_, rfl, rfl, rfl, by decide⟩,
    by decide⟩
  · rintro i svc sid now rfl
    revert he
    simp [secondEvents, joinEvents, closeEvents]
  · revert e
    decide

end MeshlyCore.Control
