import MeshlyCore.Control.Server

/-!
# What a removal finds

`drop_session` and `sweep_dead_sessions` collect keys in one operation and remove them by key in
later ones, and look at no entry again. Between the two, another client may register a service
that is about to go, and a client that was found dead may send a heartbeat.

**Theorem (`removals_justified`).** In a run without such a take-over and without such a
heartbeat, every entry that is removed meets its removal condition when it is removed: a record
goes in a drop of its own provider, and a session that the sweeper removes is older than the
cutoff.
-/

namespace MeshlyCore.Control

open Protocol Registry Machine

variable {toStr : EndpointId → String} {w w' : Server} {e : Event}

/-! ## The condition -/

/-- No client registers a service that a drop of another client has scanned and not yet
removed. -/
def NoTakeover (w : Server) (e : Event) : Prop :=
  ∀ i svc sid now c g, e = .recv i (.frame (.register ⟨svc⟩)) sid now → w.conns i = some c →
    c.phase = .ready g → (utf8 svc).length ≤ 32 →
    ∀ a client left, w.drop? a = some (g, client, .remove left) → svc ∈ left → client = c.remote

/-- No client shows it is alive after the sweeper has marked its session. -/
def NoRevival (w : Server) (e : Event) : Prop :=
  ∀ i client g now, Beats w e i client g now →
    ∀ cutoff clients, w.sweeper.marked = some (cutoff, g, clients) → client ∉ clients

/-! ## What a step removes -/

/-- A record that is gone after the step went in a drop of its provider; a session that is gone
went in a drop of its connection, or the sweeper removed it and it is older than the cutoff. -/
structure JustRemovals (w : Server) (e : Event) (w' : Server) : Prop where
  service : ∀ g svc r, (w.state.groups g).services.lookup svc = some r →
    svc ∉ (w'.state.groups g).services → ∃ a left, e.dropActor = some a ∧
      w.drop? a = some (g, r.providerId, .remove (svc :: left))
  session : ∀ g client s, (w.state.groups g).sessions.lookup client = some s →
    client ∉ (w'.state.groups g).sessions →
    (∃ i, e.dropActor = some (.conn i) ∧ w.drop? (.conn i) = some (g, client, .removeSession)) ∨
    ∃ cutoff entries dead, e.dropActor = some .sweeper ∧
      w.sweeper = .dropping cutoff entries g dead client .removeSession ∧
      s.lastHeartbeat < cutoff

/-! ## What is collected stays removable -/

/-- What is collected for removal still meets the condition it was collected under. -/
structure Collected (w : Server) : Prop where
  services : ∀ a g client left svc r, w.drop? a = some (g, client, .remove left) → svc ∈ left →
    (w.state.groups g).services.lookup svc = some r → r.providerId = client
  sessions : ∀ cutoff g clients client s, w.sweeper.marked = some (cutoff, g, clients) →
    client ∈ clients → (w.state.groups g).sessions.lookup client = some s →
    s.lastHeartbeat < cutoff

theorem collected_init {st : ServerState} : Collected (Server.init st) := by
  refine ⟨?_, ?_⟩
  · intro a g client left svc r ha
    cases a <;> cases ha
  · intro cutoff g clients client s hm
    cases hm

/-- A scanned service keeps its provider, or goes. -/
theorem collected_services (h : Steps toStr w e w') (hi : Collected w) (hguard : NoTakeover w e)
    {a : Actor} {g : String} {client : EndpointId} {left : List String} {svc : String}
    {r : ServiceRecord} (ha : w'.drop? a = some (g, client, .remove left)) (hsvc : svc ∈ left)
    (hr : (w'.state.groups g).services.lookup svc = some r) : r.providerId = client := by
  rcases step_effect h with ⟨b, g', c, d, d', op, hdrop⟩ | ⟨op, hstate, hact, -, hnew⟩
  · have hr0 := (lookup_of_drops hdrop g).1 svc r hr
    obtain ⟨-, hb, ⟨scanned, hd⟩, -, hb', hother⟩ := hdrop
    by_cases hab : a = b
    · subst hab
      -- The drop that moves is the one we look at: it has just scanned, or is one service on.
      obtain ⟨x, rfl, hx⟩ := Option.map_eq_some_iff.1 (hb'.symm.trans ha)
      obtain ⟨rfl, rfl, rfl⟩ : g' = g ∧ c = client ∧ x = .remove left := by simpa using hx
      rcases drop_cases hd with ⟨-, hd', -⟩ | ⟨-, hd', -, hscan⟩ | ⟨svc', left', rfl, hd', -⟩ |
          ⟨-, hd', -⟩
      · cases hd'
      · obtain rfl : left = scanned := by simpa using hd'
        rw [(hscan svc).1 hsvc] at hr0
        rw [← Option.some.inj hr0]
      · obtain rfl : left = left' := by simpa using hd'
        exact hi.services a _ _ _ svc r hb (List.mem_cons_of_mem _ hsvc) hr0
      · cases hd'
    · rw [hother a hab] at ha
      exact hi.services a g client left svc r ha hsvc hr0
  · have ha0 : w.drop? a = some (g, client, .remove left) :=
      (hnew a g client _ ha).resolve_right (by simp)
    rw [hstate] at hr
    rcases service_of_apply hr with hr0 | rfl
    · exact hi.services a g client left svc r ha0 hsvc hr0
    · obtain ⟨i, c, -, sid, now, he, hlen, hc, hp, hremote, -⟩ := hact.of_insert
      rw [← hremote]
      exact (hguard i svc sid now c g he hc hp hlen a client left ha0 hsvc).symm

/-- A marked session keeps its heartbeat, or goes. -/
theorem collected_sessions (h : Steps toStr w e w') (hi : Collected w) (hguard : NoRevival w e)
    {cutoff : Instant} {g : String} {clients : List EndpointId} {client : EndpointId}
    {s : Session} (hm : w'.sweeper.marked = some (cutoff, g, clients)) (hc : client ∈ clients)
    (hs : (w'.state.groups g).sessions.lookup client = some s) : s.lastHeartbeat < cutoff := by
  rcases sweeper_step h with hsame | ⟨input, op, he, hstep, hstate⟩
  · rw [hsame] at hm
    rcases heartbeat_of_step h hs with hs | ⟨i, hbeats⟩
    · exact hi.sessions cutoff g clients client s hm hc hs
    · exact absurd hc (hguard i client g _ hbeats cutoff clients hm)
  · -- The sweeper moves, so no client does.
    have hs0 : (w.state.groups g).sessions.lookup client = some s := by
      rcases heartbeat_of_step h hs with hs | ⟨i, input', sid, c, he', -⟩
      · exact hs
      · rw [he] at he'
        cases he'
    rcases marked_step hstep hm with ⟨old, hold, hsub⟩ | ⟨-, hexpired⟩
    · exact hi.sessions cutoff g old client s hold (hsub hc) hs0
    · obtain ⟨s', hs', hlt⟩ := mem_expired.1 (hexpired client hc)
      rw [hs0] at hs'
      obtain rfl := Option.some.inj hs'
      exact hlt

theorem collected_step (h : Steps toStr w e w') (hi : Collected w) (ht : NoTakeover w e)
    (hr : NoRevival w e) : Collected w' :=
  ⟨fun _ _ _ _ _ _ ha hsvc hrec => collected_services h hi ht ha hsvc hrec,
    fun _ _ _ _ _ hm hc hs => collected_sessions h hi hr hm hc hs⟩

/-! ## Removals -/

theorem just_of_collected (h : Steps toStr w e w') (hi : Collected w) : JustRemovals w e w' := by
  refine ⟨?_, ?_⟩
  · intro g svc r hr hgone
    obtain ⟨a, client, left, ha, hdrop⟩ :=
      (drops_of_removed h).1 svc (Finmap.mem_of_lookup_eq_some hr) hgone
    obtain rfl := hi.services a g client _ svc r hdrop List.mem_cons_self hr
    exact ⟨a, left, ha, hdrop⟩
  · intro g client s hs hgone
    obtain ⟨a, ha, hdrop⟩ :=
      (drops_of_removed h).2 client (Finmap.mem_of_lookup_eq_some hs) hgone
    cases a with
    | conn i => exact .inl ⟨i, ha, hdrop⟩
    | sweeper =>
      obtain ⟨cutoff, entries, dead, hsw⟩ := dropping_of_drop? hdrop
      have hm : w.sweeper.marked = some (cutoff, g, client :: dead) := by
        rw [hsw]
        rfl
      refine .inr ⟨cutoff, entries, dead, ha, hsw, ?_⟩
      exact hi.sessions cutoff g _ client s hm List.mem_cons_self hs

/-- **Every removal is justified** in a run in which nobody takes over a service that is about to
be removed and nobody revives a session that is about to be removed. -/
theorem removals_justified {st : ServerState} {es : List Event}
    (hrun : Run (Guarded (fun w e => NoTakeover w e ∧ NoRevival w e) (Steps toStr))
      (Server.init st) es w) (h : Steps toStr w e w') : JustRemovals w e w' := by
  refine just_of_collected h ?_
  refine Run.invariant (P := Collected) ?_ hrun collected_init
  intro u a v hstep hi
  exact collected_step hstep.2 hi hstep.1.1 hstep.1.2

/-! ## Runs without a drop -/

/-- Nobody is in a drop, and the sweeper sleeps. -/
def Quiet (w : Server) : Prop :=
  w.sweeper = .idle ∧ ∀ i c, w.conns i = some c → c.drop? = none

theorem Quiet.guards (h : Quiet w) (e : Event) : NoTakeover w e ∧ NoRevival w e := by
  refine ⟨?_, ?_⟩
  · intro i svc sid now c g _ _ _ _ a client left ha
    cases a with
    | conn j =>
      obtain ⟨c', hc', hd⟩ := Option.bind_eq_some_iff.1 ha
      rw [h.2 j c' hc'] at hd
      cases hd
    | sweeper =>
      rw [Server.drop?, h.1] at ha
      cases ha
  · intro i client g now _ cutoff clients hm
    rw [h.1] at hm
    cases hm

/-- A frame does not end a session that is in the main loop. -/
theorem drop?_recv_frame {st : ServerState} {f : Frame} {sid : UInt64} {now : Instant}
    {c c' : Conn} {op : Op} (h : c.recv toStr st (.frame f) sid now = some (c', op)) :
    c'.drop? = none := by
  unfold Conn.recv at h
  split at h
  · obtain ⟨rfl, -⟩ := Prod.mk.inj (Option.some.inj h)
    cases f with
    | hello hello => cases hauth : st.authenticate hello.groupToken <;> simp [Conn.drop?, hauth]
    | _ => rfl
  · rename_i g hphase
    obtain ⟨rfl, -⟩ := Prod.mk.inj (Option.some.inj h)
    cases f with
    | register reg =>
      cases hreg : (st.groups g).registerService reg.service c.remote <;>
        simp [Conn.drop?, handleRegister, hreg]
    | subscribe sub =>
      cases hlook : st.lookupService g sub.service <;> simp [Conn.drop?, handleSubscribe, hlook]
    | _ => rfl
  · cases h

/-- Connections that come and send frames, and whose replies are written. -/
def Event.calm : Event → Bool
  | .connect _ _ => true
  | .recv _ (.frame _) _ _ => true
  | .wrote _ _ => true
  | _ => false

theorem quiet_step (h : Steps toStr w e w') (hcalm : e.calm) (hi : Quiet w) : Quiet w' := by
  refine ⟨?_, ?_⟩
  · rcases sweeper_step h with hsame | ⟨input, op, rfl, -⟩
    · rw [hsame, hi.1]
    · cases hcalm
  · intro i c' hc'
    rcases conns_of_step h hc' with ⟨remote, -, rfl⟩ |
        ⟨c, hc, rfl | ⟨input, sid, now, op, rfl, hr⟩ | ⟨ok, hw, -⟩ | ⟨scanned, op, hclean, -⟩⟩
    · rfl
    · exact hi.2 i c' hc
    · cases input with
      | frame f => exact drop?_recv_frame hr
      | malformed => cases hcalm
      | closed => cases hcalm
    · obtain ⟨-, hw⟩ := wrote_cases hw
      rcases hw with ⟨-, hp', -⟩ | ⟨g, reply, p, -, hp', -⟩ | ⟨g, reply, -, -, hp', -⟩ <;>
        simp [Conn.drop?, hp']
    · obtain ⟨g, d, d', hp, -⟩ := cleanup_cases hclean
      have := hi.2 i c hc
      simp [Conn.drop?, hp] at this

/-! ## Two races -/

/-- The clean-up of alice's connection, up to where it has scanned her service. -/
def scanEvents : List Event := [.recv 0 .closed 0 0, .cleanup 0 [], .cleanup 0 ["web"]]

theorem exec_offered :
    (exec (Server.next Iroh.hex.toStr) (Server.init sampleState)
      (joinEvents 0 alice "token" ++ registerEvents 0 "web")).isSome := by
  decide

/-- alice offers a service. -/
def offered : Server := Option.get _ exec_offered

theorem exec_scanned : (exec (Server.next Iroh.hex.toStr) offered scanEvents).isSome := by
  decide

/-- Her connection has ended, and its clean-up has come to the service. -/
def scanned : Server := Option.get _ exec_scanned

theorem step_scanned : (Server.next Iroh.hex.toStr scanned (.cleanup 0 [])).isSome := by
  decide

/-- Nobody else is there, and the service is removed as hers. -/
theorem removals_justified_scanned :
    ∃ w', Steps Iroh.hex.toStr scanned (.cleanup 0 []) w' ∧
      "web" ∉ (w'.state.groups "home").services ∧ JustRemovals scanned (.cleanup 0 []) w' := by
  have hcalm : ∀ e ∈ joinEvents 0 alice "token" ++ registerEvents 0 "web", e.calm := by
    simp [joinEvents, registerEvents, Event.calm]
  have hhead := (run_of_exec (Option.some_get exec_offered).symm).guarded_of_invariant
    (P := Quiet) (fun e he _ _ hs hq => quiet_step hs (hcalm e he) hq)
    (fun e _ _ hq => hq.guards e) ⟨rfl, by simp [Server.init]⟩
  have htail : ∀ e ∈ scanEvents, ∀ w, NoTakeover w e ∧ NoRevival w e := by
    intro e he w
    simp only [scanEvents, List.mem_cons, List.not_mem_nil, or_false] at he
    rcases he with rfl | rfl | rfl <;> simp [NoTakeover, NoRevival, Beats]
  have hrun := hhead.append ((run_of_exec (Option.some_get exec_scanned).symm).guarded htail)
  have hstep := (Option.some_get step_scanned).symm
  exact ⟨_, hstep, by decide, removals_justified hrun hstep⟩

/-- While alice's clean-up is about to remove her service, bob takes it over. -/
def takeoverEvents : List Event :=
  joinEvents 1 bob "token" ++ scanEvents ++ registerEvents 1 "web"

theorem exec_takenOver :
    (exec (Server.next Iroh.hex.toStr) offered takeoverEvents).isSome := by
  decide

def takenOver : Server := Option.get _ exec_takenOver

theorem step_takenOver : (Server.next Iroh.hex.toStr takenOver (.cleanup 0 [])).isSome := by
  decide

/-- A sweep at time 10, with a timeout of 1: it finds alice's session expired. She sends a
heartbeat before the sweep comes to drop it. -/
def sweepInput : SweepInput := ⟨10, 1, fun _ => [⟨"web", ⟨alice⟩⟩], [alice], []⟩

def revivalEvents : List Event :=
  [.sweep sweepInput, .sweep sweepInput, .recv 0 (.frame .heartbeat) 0 10, .sweep sweepInput]

theorem exec_revived : (exec (Server.next Iroh.hex.toStr) offered revivalEvents).isSome := by
  decide

def revived : Server := Option.get _ exec_revived

theorem step_revived : (Server.next Iroh.hex.toStr revived (.sweep sweepInput)).isSome := by
  decide

theorem run_offered {es : List Event} {w : Server}
    (h : Run (Steps Iroh.hex.toStr) offered es w) :
    Run (Steps Iroh.hex.toStr) (Server.init sampleState)
      (joinEvents 0 alice "token" ++ registerEvents 0 "web" ++ es) w :=
  (run_of_exec (Option.some_get exec_offered).symm).append h

/-- alice's clean-up removes the record of bob, and the sweeper removes the session of alice,
whose heartbeat is as recent as can be. -/
theorem removals_unjustified :
    (∃ es w', Run (Steps Iroh.hex.toStr) (Server.init sampleState) es takenOver ∧
      Steps Iroh.hex.toStr takenOver (.cleanup 0 []) w' ∧
      takenOver.drop? (.conn 0) = some ("home", alice, .remove ["web"]) ∧
      (takenOver.state.groups "home").services.lookup "web" = some ⟨bob⟩ ∧
      "web" ∉ (w'.state.groups "home").services ∧ ¬JustRemovals takenOver (.cleanup 0 []) w') ∧
    ∃ es w', Run (Steps Iroh.hex.toStr) (Server.init sampleState) es revived ∧
      Steps Iroh.hex.toStr revived (.sweep sweepInput) w' ∧
      revived.sweeper = .dropping 9 [] "home" [] alice .removeSession ∧
      (revived.state.groups "home").sessions.lookup alice = some ⟨10⟩ ∧
      alice ∉ (w'.state.groups "home").sessions ∧
      ¬JustRemovals revived (.sweep sweepInput) w' := by
  refine ⟨⟨_, _, run_offered (run_of_exec (Option.some_get exec_takenOver).symm),
    (Option.some_get step_takenOver).symm, by decide, by decide, by decide, fun hjust => ?_⟩,
    ⟨_, _, run_offered (run_of_exec (Option.some_get exec_revived).symm),
    (Option.some_get step_revived).symm, by decide, by decide, by decide, fun hjust => ?_⟩⟩
  · obtain ⟨a, left, ha, hdrop⟩ := hjust.service "home" "web" ⟨bob⟩ (by decide) (by decide)
    obtain rfl := Option.some.inj ha
    have hclient : (takenOver.drop? (.conn 0)).map (·.2.1) = some bob := by
      rw [hdrop]
      rfl
    revert hclient
    decide
  · rcases hjust.session "home" alice ⟨10⟩ (by decide) (by decide) with ⟨i, ha, -⟩ |
        ⟨cutoff, entries, dead, -, hsw, hlt⟩
    · cases ha
    · have hcut : revived.sweeper.marked.map (·.1) = some cutoff := by
        rw [hsw]
        rfl
      obtain rfl : (9 : ℤ) = cutoff := Option.some.inj hcut
      exact absurd hlt (by decide)

end MeshlyCore.Control
