import MeshlyCore.Control.Server

/-!
# Can every service be reaped?

The sweeper finds dead clients through the session map, so a service whose provider has no
session stays advertised for good. `Register` does not touch the session map (`Hello` and
`Heartbeat` do), and a session may be gone while its client is still connected: the sweeper may
have expired it, or another connection of the same client may have ended.

**Theorem (`sessions_of_services`).** In every run in which each accepted `Register` finds the
client's session in place, every service record has a session, except while a `drop_session`
that will come to the record is under way.
-/

namespace MeshlyCore.Control

open Protocol Registry Machine

variable {toStr : EndpointId → String}

/-- An accepted `Register` finds the session of its client. -/
def RegistersInSession (w : Server) (e : Event) : Prop :=
  ∀ i svc sid now c g, e = .recv i (.frame (.register ⟨svc⟩)) sid now → w.conns i = some c →
    c.phase = .ready g → (utf8 svc).length ≤ 32 → c.remote ∈ (w.state.groups g).sessions

/-- A drop of `client` in group `g` is under way and will come to `svc`. -/
def BeingDropped (w : Server) (g svc : String) (client : EndpointId) : Prop :=
  ∃ a d, w.drop? a = some (g, client, d) ∧ d.Pending svc

/-- No `drop_session` is under way. -/
def Quiescent (w : Server) : Prop := ∀ a, w.drop? a = none

/-- Every record has a session, or is about to go. -/
def Reapable (w : Server) : Prop :=
  ∀ g svc r, (w.state.groups g).services.lookup svc = some r →
    r.providerId ∈ (w.state.groups g).sessions ∨ BeingDropped w g svc r.providerId

/-- A drop keeps `Reapable`: what loses its session is found by the scan, and what the scan has
found is removed. -/
theorem reapable_drops {w w' : Server} {e : Event} {a : Actor} {g : String}
    {client : EndpointId} {d : Drop} {d' : Option Drop} {op : Op}
    (h : Drops w e a g client d d' op w') (hi : Reapable w) : Reapable w' := by
  obtain ⟨-, hda, ⟨scanned, hstep⟩, hstate, hda', hother⟩ := h
  intro g' svc r hr
  rw [hstate] at hr ⊢
  have hr₀ : (w.state.groups g').services.lookup svc = some r :=
    (service_of_apply hr).resolve_right ((drop_op hstep).2 _ _ _)
  have hkeep : ∀ b e, b ≠ a → w.drop? b = some (g', r.providerId, e) → e.Pending svc →
      BeingDropped w' g' svc r.providerId := fun b e hb hbd hpend =>
    ⟨b, e, by rw [hother b hb, hbd], hpend⟩
  rcases hi g' svc r hr₀ with hsession | ⟨b, e, hb, hpend⟩
  · by_cases hrem : op = .removeSession g' r.providerId
    · -- The session goes, and the scan is next.
      rcases drop_cases hstep with ⟨-, rfl, hop⟩ | ⟨-, -, hop, -⟩ | ⟨_, _, -, -, hop⟩ | ⟨-, -, hop⟩
      · obtain ⟨rfl, hc⟩ := Op.removeSession.inj (hrem.symm.trans hop)
        exact .inr ⟨a, .scan, by rw [hda', hc]; rfl, trivial⟩
      all_goals rw [hrem] at hop; cases hop
    · exact .inl (session_apply hsession hrem)
  · by_cases hba : b = a
    · subst hba
      rw [hda] at hb
      obtain ⟨rfl, rfl, rfl⟩ : g = g' ∧ client = r.providerId ∧ d = e := by simpa using hb
      right
      rcases drop_cases hstep with ⟨rfl, -, -⟩ | ⟨rfl, rfl, -, hscan⟩ |
          ⟨svc', left, rfl, rfl, rfl⟩ | ⟨rfl, -, -⟩
      · exact absurd hpend id
      · exact ⟨b, .remove scanned, hda', (hscan svc).2 hr₀⟩
      · refine ⟨b, .remove left, hda', ?_⟩
        rcases List.mem_cons.1 hpend with rfl | hmem
        · rw [services_apply] at hr
          simp at hr
        · exact hmem
      · cases hpend
    · exact .inr (hkeep b e hba hb hpend)

theorem reapable_step {w w' : Server} {e : Event}
    (h : Guarded RegistersInSession (Steps toStr) w e w') (hi : Reapable w) : Reapable w' := by
  obtain ⟨hguard, hstep⟩ := h
  rcases step_effect hstep with ⟨a, g, client, d, d', op, hdrop⟩ | ⟨op, hstate, hact, hdrops, -⟩
  · exact reapable_drops hdrop hi
  · intro g svc r hr
    rw [hstate] at hr ⊢
    have hnorem : ∀ g c, op ≠ .removeSession g c := by
      rintro g c rfl
      cases hact
    rcases service_of_apply hr with hr₀ | rfl
    · rcases hi g svc r hr₀ with hsession | ⟨a, d, ha, hpend⟩
      · exact .inl (session_apply hsession (hnorem _ _))
      · exact .inr ⟨a, d, hdrops a _ ha, hpend⟩
    · left
      obtain ⟨i, c, -, sid, now, he, hlen, hc, hp, hremote, -⟩ := hact.of_insert
      refine session_apply ?_ (hnorem _ _)
      rw [← hremote]
      exact hguard i svc sid now c g he hc hp hlen

theorem reapable_init {st : ServerState} (h : st.Initial) : Reapable (Server.init st) := by
  intro g svc r hr
  rw [Server.init, h.groups_eq] at hr
  cases hr

/-- **Every advertised service can be reaped**, in every run in which each accepted `Register`
finds its client's session: a record without a session is one a drop under way is coming to, and
when no drop is under way there is none. -/
theorem sessions_of_services {st : ServerState} (hst : st.Initial) {es : List Event} {w : Server}
    (hrun : Run (Guarded RegistersInSession (Steps toStr)) (Server.init st) es w) {g svc : String}
    {r : ServiceRecord} (hr : (w.state.groups g).services.lookup svc = some r) :
    (r.providerId ∈ (w.state.groups g).sessions ∨ BeingDropped w g svc r.providerId) ∧
      (Quiescent w → r.providerId ∈ (w.state.groups g).sessions) := by
  have hreap : Reapable w :=
    hrun.invariant (fun _ _ _ hs hi => reapable_step hs hi) (reapable_init hst)
  refine ⟨hreap g svc r hr, fun hq => ?_⟩
  rcases hreap g svc r hr with h | ⟨a, d, ha, -⟩
  · exact h
  · rw [hq a] at ha
    cases ha

theorem registersInSession_of_ne {w : Server} {e : Event}
    (h : ∀ i svc sid now, e ≠ .recv i (.frame (.register svc)) sid now) : RegistersInSession w e :=
  fun _ _ _ _ _ _ he => absurd he (h _ _ _ _)

theorem run_registerWeb :
    ∃ w, Run (Guarded RegistersInSession (Steps Iroh.hex.toStr)) (Server.init sampleState)
      (joinEvents 0 alice "token" ++ registerEvents 0 "web") w ∧
      (w.state.groups "home").services.lookup "web" = some ⟨alice⟩ ∧ Quiescent w := by
  refine ⟨_, .cons ⟨registersInSession_of_ne (by simp), rfl⟩
    (.cons ⟨registersInSession_of_ne (by simp), rfl⟩
      (.cons ⟨registersInSession_of_ne (by simp), rfl⟩
        (.cons ⟨?_, rfl⟩ (.cons ⟨registersInSession_of_ne (by simp), rfl⟩ (.nil _))))),
    by decide, ?_⟩
  · intro i svc sid now c g he hc hp hlen
    obtain ⟨rfl, -⟩ := Event.recv.inj he
    obtain rfl := Option.some.inj hc
    obtain rfl := Phase.ready.inj hp
    decide
  · rintro (i | _)
    · match i with
      | 0 => rfl
      | _ + 1 => rfl
    · rfl

theorem sessions_registerWeb :
    ∃ w, Run (Guarded RegistersInSession (Steps Iroh.hex.toStr)) (Server.init sampleState)
      (joinEvents 0 alice "token" ++ registerEvents 0 "web") w ∧
      alice ∈ (w.state.groups "home").sessions := by
  obtain ⟨w, hrun, hr, hq⟩ := run_registerWeb
  exact ⟨w, hrun, (sessions_of_services sampleState_initial hrun hr).2 hq⟩

/-- Two connections of one client; one ends, and the other registers a service. -/
def orphanEvents : List Event :=
  joinEvents 0 alice "token" ++ joinEvents 1 alice "token" ++ closeEvents 1 [] ++
    registerEvents 0 "web"

theorem exec_orphanEvents :
    (exec (Server.next Iroh.hex.toStr) (Server.init sampleState) orphanEvents).isSome := by
  decide

/-- The service is advertised and its provider has no session, with no drop under way. -/
theorem orphanEvents_unreapable :
    ∃ w, Run (Steps Iroh.hex.toStr) (Server.init sampleState) orphanEvents w ∧ Quiescent w ∧
      (w.state.groups "home").services.lookup "web" = some ⟨alice⟩ ∧
      alice ∉ (w.state.groups "home").sessions := by
  refine ⟨_, run_of_exec (Option.some_get exec_orphanEvents).symm, ?_, by decide, by decide⟩
  rintro (i | _)
  · match i with
    | 0 => rfl
    | 1 => rfl
    | _ + 2 => rfl
  · rfl

end MeshlyCore.Control
