import MeshlyCore.Control.Registration
import MeshlyCore.Mesh.Agreement

/-!
# Who registers is found by who subscribes

The two calls, end to end. What `register_with_server` registers is kept under the conditions of
`MeshlyCore.Control.Registration`: the registry is keyed by client, so another connection of the
same client may take its services away, and a drop that was slow may take those of another one.

**Theorem (`registered_found`).** When the call has returned well, every service that it was called
with is found at the client, as long as the connection is served and no harm is done.

**Theorem (`subscribe_finds`).** While a service is so registered, every `subscribe` for it in the
same group returns its provider, unless its connection is gone.
-/

namespace MeshlyCore.Mesh

open Protocol Registry Machine Client Control

section Registered

variable {iroh : Iroh} {st : ServerState} {w w' : World} {e : Event} {es : List Event} {i : ℕ}
  {l : Link} {c : Conn} {g : String}

/-- No drop removes what is not its own, or is of a client that is served elsewhere; and nobody else
registers a name that is confirmed on connection `i`, and the sweeper does not give its client
up. -/
def Unharmed (i : ℕ) (w : World) (e : Event) : Prop :=
  ∀ e', e.served = some e' → Orderly w.server e' ∧
    ∀ c g svc, w.server.conns i = some c → c.phase.joined = some g → Confirms svc c →
      Undisturbed g svc c.remote w.server e'

/-- What is confirmed on connection `i` is kept for its client. -/
def Confirmed (i : ℕ) (w : World) : Prop :=
  GroupsKnown w.server ∧ ∀ c svc, w.server.conns i = some c → Confirms svc c →
    ∃ g, Kept i c.remote g svc w.server

theorem confirmed_step (h : Guarded (Unharmed i) (WorldSteps iroh) w e w')
    (hi : Confirmed i w) : Confirmed i w' := by
  obtain ⟨hunharmed, hstep⟩ := h
  obtain ⟨hknown, hkept⟩ := hi
  rcases server_step hstep with ⟨e', he', hs⟩ | ⟨-, hsame⟩
  · refine ⟨groupsKnown_step hs hknown, fun c' svc hc' hconf => ?_⟩
    obtain ⟨hord, hund⟩ := hunharmed e' he'
    rcases confirms_step hs hc' hconf with ⟨c, hc, hconf⟩ | ⟨g, hreg, -⟩
    · obtain ⟨g, hg⟩ := hkept c svc hc hconf
      have hjoined : c.phase.joined = some g := by
        obtain ⟨-, c₀, hc₀, -, hjoined, -⟩ := hg
        cases hc.symm.trans hc₀
        exact hjoined
      have hremote : c'.remote = c.remote := by
        obtain ⟨c'', hc'', hmove⟩ := conns_step hs hc
        cases hc'.symm.trans hc''
        exact hmove.1
      rw [hremote]
      exact ⟨g, kept_step hs hord (hund c g svc hc hjoined hconf) hg⟩
    · exact ⟨g, kept_of_registers hs hknown hreg⟩
  · rw [Confirmed, hsame]
    exact ⟨hknown, hkept⟩

theorem confirmed_init (i : ℕ) (st : ServerState) : Confirmed i (.init st) := by
  refine ⟨fun j c g hc => ?_, fun c svc hc => ?_⟩
  · cases hc
  · cases hc

theorem Lockstep.confirms {k : Facts} (hl : Lockstep k l c)
    (hres : l.call.result = some (.ok none)) {svc : String} {isStatic : Bool}
    (hmem : .register svc isStatic ∈ l.call.script.body) : Confirms svc c :=
  .inl (hl.registerOk hres hmem)

/-- What is kept is found. -/
theorem lookupService_of_kept {s : Server} {client : EndpointId} {svc : String}
    (hk : Kept i client g svc s) (hc : s.conns i = some c) (hserving : c.phase.serving = some g) :
    s.state.lookupService g svc = some client := by
  obtain ⟨hg, c', hc', -, -, hlookup⟩ := hk
  cases hc.symm.trans hc'
  rw [ServerState.lookupService, ServerState.group, if_pos hg, Option.bind_some, hlookup hserving,
    Option.map_some]

/-- The group in which a service is kept is the one its connection is served in. -/
theorem Kept.group {s : Server} {client : EndpointId} {svc g' : String}
    (hk : Kept i client g' svc s) (hc : s.conns i = some c) (hserving : c.phase.serving = some g) :
    g' = g := by
  obtain ⟨-, c', hc', -, hjoined, -⟩ := hk
  cases hc.symm.trans hc'
  rw [Phase.joined_of_serving hserving] at hjoined
  exact (Option.some.inj hjoined).symm

/-- What is confirmed is found. -/
theorem Confirmed.found (hconf : Confirmed i w) (hc : w.server.conns i = some c)
    (hserving : c.phase.serving = some g) {svc : String} (h : Confirms svc c) :
    w.server.state.lookupService g svc = some c.remote := by
  obtain ⟨g', hk⟩ := hconf.2 c svc hc h
  obtain rfl := Kept.group hk hc hserving
  exact lookupService_of_kept hk hc hserving

/-- **Who has registered is found**: on a connection that is served, when no harm is done, under
every name that the call was for, in the group of its token. -/
theorem registered_found
    (hrun : Run (Guarded (Unharmed i) (WorldSteps iroh)) (.init st) es w)
    (hl : w.links i = some l) (hres : l.call.result = some (.ok none))
    (hc : w.server.conns i = some c) (hserving : c.phase.serving = some g) :
    st.authenticate l.call.script.intro.groupToken = some g ∧
      ∀ svc isStatic, .register svc isStatic ∈ l.call.script.body →
        w.server.state.lookupService g svc = some c.remote := by
  obtain ⟨c', hc', hlock⟩ := (lockstep_run (hrun.mono fun _ _ _ hs => hs.2)).2 i l hl
  cases hc.symm.trans hc'
  have hconf : Confirmed i w :=
    hrun.invariant (fun _ _ _ hs hi => confirmed_step hs hi) (confirmed_init i st)
  constructor
  · obtain ⟨taken, -, hs⟩ := hlock
    exact hs.group g (Phase.joined_of_serving hserving)
  · exact fun svc isStatic hmem => hconf.found hc hserving (hlock.confirms hres hmem)

/-! ## Subscribers -/

/-- A call returns once. -/
theorem result_move {l' : Link} {c' : Conn} {ss : ServerState}
    {res : Except CallError (Option EndpointId)} (hm : LinkMove iroh ss l c e l' c')
    (hres : l.call.result = some res) : l'.call.result = some res := by
  cases hm with
  | ask step => cases hres.symm.trans (Call.ask_cases step).1
  | read _ step => cases hres.symm.trans (Call.read_cases step).1
  | fail _ step => cases hres.symm.trans (Call.fail_cases step).1
  | _ => exact hres

def ServedIn (i : ℕ) (g : String) (w : World) : Prop :=
  ∃ c, w.server.conns i = some c ∧ c.phase.serving = some g

/-- The call on a connection, its session, and that they are in lockstep. -/
def Calls (k : Facts) (s : Script) (remote : EndpointId) (i : ℕ) (w : World) (l : Link) : Prop :=
  w.links i = some l ∧ l.call.script = s ∧
    ∃ c, w.server.conns i = some c ∧ c.remote = remote ∧ Lockstep k l c

theorem calls_step {k : Facts} {s : Script} {remote : EndpointId} (h : WorldSteps k.iroh w e w')
    (hk : k.Hold w.server.state s) (hcalls : Calls k s remote i w l) :
    ∃ l', Calls k s remote i w' l' ∧
      ∀ res, l.call.result = some res → l'.call.result = some res := by
  obtain ⟨hl, rfl, c, hc, rfl, hlock⟩ := hcalls
  obtain ⟨l', c', hl', hc', ⟨-, rfl, rfl⟩ | ⟨-, hmove⟩⟩ := link_step h hl hc
  · exact ⟨l', ⟨hl', rfl, c', hc', rfl, hlock⟩, fun _ hres => hres⟩
  obtain ⟨hlock', hscript⟩ := lockstep_move hk hlock hmove
  have hremote : c'.remote = c.remote := by
    cases hmove with
    | recv _ step => exact (recv_remote step).1
    | gone _ _ step => exact (recv_remote step).1
    | wrote step => exact (wrote_cases step).1
    | cleanup step =>
      obtain ⟨_, _, _, -, -, hremote, -⟩ := cleanup_cases step
      exact hremote
    | _ => rfl
  exact ⟨l', ⟨hl', hscript, c', hc', hremote, hlock'⟩, fun res => result_move hmove⟩

/-- The service is found at its provider. -/
abbrev foundFacts (iroh : Iroh) (st : ServerState) (svc : String) (provider : EndpointId) : Facts :=
  ⟨iroh, st.authenticate, fun svc' p => svc' = svc → p = some provider⟩

/-- A provider that has registered, and a subscriber. -/
structure Meeting (iroh : Iroh) (st : ServerState) (i j : ℕ) (si sj : Script) (svc : String)
    (provider consumer : EndpointId) (w : World) : Prop where
  confirmed : Confirmed i w
  auth : w.server.state.authenticate = st.authenticate
  registered : ∃ l, Calls (openFacts iroh st) si provider i w l ∧ l.call.result = some (.ok none)
  subscribes : ∃ l, Calls (foundFacts iroh st svc provider) sj consumer j w l

theorem meeting_step {j : ℕ} {si sj : Script} {svc : String} {isStatic : Bool}
    {provider consumer : EndpointId}
    (h : Guarded (fun w e => Unharmed i w e ∧ ServedIn i g w) (WorldSteps iroh) w e w')
    (hmem : .register svc isStatic ∈ si.body)
    (htoken : st.authenticate sj.intro.groupToken = some g)
    (hm : Meeting iroh st i j si sj svc provider consumer w) :
    Meeting iroh st i j si sj svc provider consumer w' := by
  obtain ⟨⟨hunharmed, c, hc, hserving⟩, hstep⟩ := h
  obtain ⟨l, hcalls, hres⟩ := hm.registered
  obtain ⟨l', hcalls'⟩ := hm.subscribes
  -- The provider is found now.
  have hfound : w.server.state.lookupService g svc = some provider := by
    obtain ⟨-, rfl, c₀, hc₀, rfl, hlock⟩ := hcalls
    cases hc.symm.trans hc₀
    exact hm.confirmed.found hc hserving (hlock.confirms hres hmem)
  refine ⟨confirmed_step ⟨hunharmed, hstep⟩ hm.confirmed,
    (authenticate_step hstep).trans hm.auth, ?_, ?_⟩
  · obtain ⟨l₁, hl₁, hkeep⟩ := calls_step (k := openFacts iroh st) hstep
      ⟨congrFun hm.auth _, fun _ _ _ _ => trivial⟩ hcalls
    exact ⟨l₁, hl₁, hkeep _ hres⟩
  · refine (calls_step (k := foundFacts iroh st svc provider) hstep
      ⟨congrFun hm.auth _, fun g' svc' hg' _ hsvc => ?_⟩ hcalls').imp fun _ hl₁ => hl₁.1
    cases htoken.symm.trans hg'
    rw [hsvc]
    exact hfound

/-- **Who subscribes finds who has registered.** While the provider's connection is served in a
group and no harm is done, a `subscribe` for one of its services, in that group, returns the
provider, or its own connection is gone: lost, or left by the session at a reply that could not be
written. -/
theorem subscribe_finds {j : ℕ} {es₁ es₂ : List Event} {w₁ : World} {svc token info : String}
    {isStatic : Bool} {consumer : EndpointId} {l' : Link}
    {res : Except CallError (Option EndpointId)}
    (hrun₁ : Run (Guarded (Unharmed i) (WorldSteps iroh)) (.init st) es₁ w₁)
    (hl : w₁.links i = some l) (hres : l.call.result = some (.ok none))
    (hc : w₁.server.conns i = some c) (hmem : .register svc isStatic ∈ l.call.script.body)
    (hrun₂ : Run (Guarded (fun w e => Unharmed i w e ∧ ServedIn i g w) (WorldSteps iroh)) w₁
      (.dial j consumer (.subscribe token info svc) :: es₂) w)
    (htoken : st.authenticate token = some g)
    (hiroh : iroh.fromStr (iroh.toStr c.remote) = some c.remote)
    (hl' : w.links j = some l') (hres' : l'.call.result = some res) :
    res = .ok (some c.remote) ∨ ((∃ text, res = .error (.lost text)) ∧
      (l'.down ∨ ∃ c', w.server.conns j = some c' ∧
        ∃ g', c'.phase = .ended (some g') (.error .writeFrame))) := by
  have hbase := lockstep_run (hrun₁.mono fun _ _ _ hs => hs.2)
  have hrun : Run (WorldSteps iroh) (.init st)
      (es₁ ++ .dial j consumer (.subscribe token info svc) :: es₂) w :=
    (hrun₁.mono fun _ _ _ hs => hs.2).append (hrun₂.mono fun _ _ _ hs => hs.2)
  have hconf : Confirmed i w₁ :=
    hrun₁.invariant (fun _ _ _ hs hi => confirmed_step hs hi) (confirmed_init i st)
  cases hrun₂ with
  | @cons _ w₂ _ _ _ hdial hrest =>
  have hmeet : Meeting iroh st i j l.call.script (.subscribe token info svc) svc c.remote consumer
      w₂ := by
    obtain ⟨c', hc', hlock⟩ := hbase.2 i l hl
    cases hc.symm.trans hc'
    have hle : (seen iroh st es₁ i l.call.script).Le (openFacts iroh st) :=
      ⟨rfl, rfl, fun _ _ _ => trivial⟩
    have hcalls : Calls (openFacts iroh st) l.call.script c.remote i w₁ l :=
      ⟨hl, rfl, c, hc, rfl, hlock.mono hle⟩
    obtain ⟨l₁, hl₁, hkeep⟩ := calls_step (k := openFacts iroh st) hdial.2
      ⟨congrFun hbase.1 _, fun _ _ _ _ => trivial⟩ hcalls
    refine ⟨confirmed_step ⟨hdial.1.1, hdial.2⟩ hconf,
      (authenticate_step hdial.2).trans hbase.1, ⟨l₁, hl₁, hkeep _ hres⟩, ?_⟩
    rcases world_cases hdial.2 with ⟨_, _, _, he, -, hserver, hlinks⟩ | ⟨_, _, _, -, -, -, he, -⟩ |
        ⟨_, he, -⟩
    · cases he
      refine ⟨_, by rw [hlinks, Function.update_self], rfl, _, ?_, rfl, lockstep_start _ _ _⟩
      rw [hserver, conns_setConn_self]
    · cases he
    · cases he
  have htoken' : st.authenticate (Script.subscribe token info svc).intro.groupToken = some g :=
    htoken
  have hend := hrest.invariant (fun _ _ _ hs hm => meeting_step hs hmem htoken' hm) hmeet
  obtain ⟨l'', hl'', hscript, c', hc', -, taken, ha, -⟩ := hend.subscribes
  cases hl'.symm.trans hl''
  have hout := ha.outcome res hres'
  rw [hscript] at hout
  have hsvc : ∀ svc', .subscribe svc' ∈ (Script.subscribe token info svc).body → svc' = svc := by
    simp [Script.body]
  rcases res with err | p
  · right
    cases hout with
    | @lost text =>
      refine ⟨⟨text, rfl⟩, ?_⟩
      rcases (parted_run hrun j l' c' hl' hc').lost text hres' with hdown | hended | ⟨hunknown, -⟩
      · exact .inl hdown
      · exact .inr ⟨c', hc', hended⟩
      · rw [hscript] at hunknown
        cases htoken'.symm.trans hunknown
    | unknown unknown => cases htoken.symm.trans unknown
    | badName mem _ => simp [Script.body] at mem
    | noProvider mem found => cases found (hsvc _ mem)
    | invalidId mem found invalid =>
      cases found (hsvc _ mem)
      cases hiroh.symm.trans invalid
  left
  cases p with
  | none =>
    obtain ⟨_, _, heq, -⟩ := hout.2 (.subscribe svc) (by simp [Script.body])
    cases heq
  | some p =>
    obtain ⟨-, svc', q, hmem', hfound, hparse⟩ := hout
    cases hfound (hsvc _ hmem')
    cases hiroh.symm.trans hparse
    rfl

/-! ## Alice and Bob -/

/-- An event that drops nothing, and registers nothing on other connections. -/
def Event.Harmless (i : ℕ) (e : Event) : Prop :=
  ∀ e', e.served = some e' → e'.dropActor = none ∧
    ∀ svc sid now j, e' = .recv j (.frame (.register svc)) sid now → j = i

theorem Event.Harmless.unharmed (he : e.Harmless i) (w : World) : Unharmed i w e := by
  intro e' he'
  obtain ⟨hdrop, hreg⟩ := he e' he'
  refine ⟨orderly_of_no_drop hdrop _,
    fun c g svc hc _ _ => ⟨fun j other hother => ?_, fun hs => ?_⟩⟩
  · obtain ⟨sid, now, cj, heq, -, hcj, -, hremote⟩ := hother
    obtain rfl := hreg ⟨svc⟩ sid now j heq
    cases hc.symm.trans hcj
    exact hremote.symm
  · rw [hdrop] at hs
    cases hs

/-- The call on connection `i` is served in `g`. -/
def CallServed (i : ℕ) (g : String) (w : World) : Prop :=
  ∃ l c, w.links i = some l ∧ w.server.conns i = some c ∧ c.phase.serving = some g

theorem callServed_step (h : WorldSteps iroh w e w') (he : e.conn? ≠ some i)
    (hserved : CallServed i g w) : CallServed i g w' := by
  obtain ⟨l, c, hl, hc, hserving⟩ := hserved
  obtain ⟨l', c', hl', hc', ⟨-, rfl, rfl⟩ | ⟨heq, -⟩⟩ := link_step h hl hc
  · exact ⟨l', c', hl', hc', hserving⟩
  · exact absurd heq he

end Registered

theorem harmless_aliceCalls : ∀ e ∈ aliceCalls, e.Harmless 0 := by
  simp [aliceCalls, Event.Harmless, Event.served, Event.dropActor]

theorem harmless_bobCalls : ∀ e ∈ bobCalls, e.Harmless 0 ∧ e.conn? ≠ some 0 := by
  simp [bobCalls, Event.Harmless, Event.served, Event.dropActor, Event.conn?]

/-- Alice has registered. -/
def aliceServed : World :=
  (exec (World.next Iroh.hex) (.init sampleState) aliceCalls).get (by decide +kernel)

def bobAnswered : World :=
  (exec (World.next Iroh.hex) aliceServed bobCalls).get (by decide +kernel)

theorem run_aliceServed :
    Run (Guarded (Unharmed 0) (WorldSteps Iroh.hex)) (.init sampleState) aliceCalls aliceServed :=
  (run_of_exec (Option.some_get _).symm).guarded fun e he w => (harmless_aliceCalls e he).unharmed w

theorem registered_found_docs : aliceServed.server.state.lookupService "home" "docs" = some alice :=
  (registered_found run_aliceServed (i := 0) (g := "home") rfl rfl rfl rfl).2 "docs" true
    (by decide)

theorem run_bobAnswered : Run (Guarded (fun w e => Unharmed 0 w e ∧ ServedIn 0 "home" w)
    (WorldSteps Iroh.hex)) aliceServed bobCalls bobAnswered := by
  have hrun : Run (WorldSteps Iroh.hex) aliceServed bobCalls bobAnswered :=
    run_of_exec (Option.some_get _).symm
  refine hrun.guarded_of_invariant (P := CallServed 0 "home")
    (fun e he _ _ hs hp => callServed_step hs (harmless_bobCalls e he).2 hp) (fun e he w hp => ?_)
    ⟨_, _, rfl, rfl, rfl⟩
  obtain ⟨-, c, -, hc, hserving⟩ := hp
  exact ⟨(harmless_bobCalls e he).1.unharmed w, c, hc, hserving⟩

theorem bobAnswered_returns :
    ((bobAnswered.links 1).bind fun l => l.call.result).map Except.isOk = some true := by
  decide +kernel

theorem subscribe_finds_alice :
    ∃ l, bobAnswered.links 1 = some l ∧ l.call.result = some (.ok (some alice)) := by
  have hmem : .register "web" false ∈
      (Script.registerWithServer "token" "sample" ["web"] ["docs"]).body := by decide
  obtain ⟨res, hbind, hok⟩ := Option.map_eq_some_iff.1 bobAnswered_returns
  obtain ⟨l, hl, hres⟩ := Option.bind_eq_some_iff.1 hbind
  refine ⟨l, hl, ?_⟩
  rcases subscribe_finds run_aliceServed (i := 0) rfl rfl rfl hmem run_bobAnswered (by decide)
    (Iroh.hex_fromStr_toStr alice) hl hres with rfl | ⟨⟨text, rfl⟩, -⟩
  · exact hres
  · cases hok

end MeshlyCore.Mesh
