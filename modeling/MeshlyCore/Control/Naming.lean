import MeshlyCore.Alpn
import MeshlyCore.Control.Server

/-!
# Which names get into the registry

The relay derives an ALPN from the name of a registered service, and `alpn_for_service` refuses
names that `validate_service_name` refuses. The registry checks a name on its way in, but only
its length: the empty name, a reserved one or one with other characters is registered and
advertised, and cannot be relayed.

**Theorem (`named_iff`).** The registry has only valid names in every state of a run if and only
if every `Register` the run accepts carries one.
-/

namespace MeshlyCore.Control

open Protocol Registry Machine Alpn

variable {toStr : EndpointId → String}

/-- Every registered service has a valid name, and so an ALPN. -/
def Named (w : Server) : Prop :=
  ∀ g svc, svc ∈ (w.state.groups g).services →
    validateServiceName svc = .ok () ∧ ∃ alpn, alpnForService svc = .ok alpn

/-- An accepted `Register` carries a valid name. -/
def RegistersValid (w : Server) (e : Event) : Prop :=
  ∀ i svc sid now c g, e = .recv i (.frame (.register ⟨svc⟩)) sid now → w.conns i = some c →
    c.phase = .ready g → (utf8 svc).length ≤ 32 → validateServiceName svc = .ok ()

theorem exists_alpn {svc : String} (h : validateServiceName svc = .ok ()) :
    ∃ alpn, alpnForService svc = .ok alpn :=
  ⟨_, alpnForService_eq_ok.2 ⟨h, rfl⟩⟩

theorem mem_services_iff {st : ServerState} {g svc : String} :
    svc ∈ (st.groups g).services ↔ ∃ r, (st.groups g).services.lookup svc = some r := by
  rw [← Finmap.lookup_isSome, Option.isSome_iff_exists]

/-- A step keeps the names valid just when it registers no other. -/
theorem named_step {w w' : Server} {e : Event} (h : Steps toStr w e w') (hi : Named w) :
    RegistersValid w e ↔ Named w' := by
  constructor
  · intro hvalid g svc hmem
    obtain ⟨r, hr⟩ := mem_services_iff.1 hmem
    have hnew : (w.state.groups g).services.lookup svc = some r ∨
        validateServiceName svc = .ok () := by
      rcases step_effect h with ⟨a, g', client, d, d', op, hdrop⟩ | ⟨op, hstate, hact, -⟩
      · obtain ⟨-, -, ⟨scanned, hd⟩, hstate, -⟩ := hdrop
        rw [hstate] at hr
        exact .inl ((service_of_apply hr).resolve_right ((drop_op hd).2 _ _ _))
      · rw [hstate] at hr
        rcases service_of_apply hr with hr | rfl
        · exact .inl hr
        · obtain ⟨i, c, -, sid, now, he, hlen, hc, hp, -⟩ := hact.of_insert
          exact .inr (hvalid i svc sid now c g he hc hp hlen)
    rcases hnew with hold | hok
    · exact hi g svc (mem_services_iff.2 ⟨r, hold⟩)
    · exact ⟨hok, exists_alpn hok⟩
  · intro hnamed i svc sid now c g he hc hp hlen
    refine (hnamed g svc (mem_services_iff.2 ⟨⟨c.remote⟩, ?_⟩)).1
    rw [state_of_register h he hc hp hlen]
    exact service_insertService

theorem named_init {st : ServerState} (h : st.Initial) : Named (Server.init st) := by
  intro g svc hmem
  rw [Server.init, h.groups_eq] at hmem
  exact absurd hmem Finmap.notMem_empty

/-- **Valid names.** Every state of a run has only valid names in its registry exactly when every
`Register` accepted in it carries one. -/
theorem named_iff {st : ServerState} (hst : st.Initial) {es : List Event} {w : Server} :
    (Run (Guarded (fun w _ => Named w) (Steps toStr)) (Server.init st) es w ∧ Named w) ↔
      Run (Guarded RegistersValid (Steps toStr)) (Server.init st) es w :=
  Run.guarded_iff (fun _ _ _ hs hi => named_step hs hi) (named_init hst)

theorem exec_web :
    (exec (Server.next Iroh.hex.toStr) (Server.init sampleState)
      (joinEvents 0 alice "token" ++ registerEvents 0 "web")).isSome := by
  decide

/-- One service, with a valid name. -/
theorem named_web :
    ∃ w, Run (Steps Iroh.hex.toStr) (Server.init sampleState)
      (joinEvents 0 alice "token" ++ registerEvents 0 "web") w ∧ Named w ∧
      "web" ∈ (w.state.groups "home").services := by
  have hrun := run_of_exec (Option.some_get exec_web).symm
  have hvalid : ∀ e ∈ joinEvents 0 alice "token" ++ registerEvents 0 "web",
      ∀ w, RegistersValid w e := by
    intro e he w i svc sid now c g heq _ _ _
    subst heq
    have hsvc : i = 0 ∧ svc = "web" ∧ sid = 0 ∧ now = 0 := by
      simpa [joinEvents, registerEvents] using he
    rw [hsvc.2.1]
    decide
  exact ⟨_, hrun, ((named_iff sampleState_initial).2 (hrun.guarded hvalid)).2, by decide⟩

/-- A name that no client of this repository would send, and nobody can dial. -/
def oddEvents : List Event := joinEvents 0 alice "token" ++ registerEvents 0 "My Web"

theorem exec_oddEvents :
    (exec (Server.next Iroh.hex.toStr) (Server.init sampleState) oddEvents).isSome := by
  decide

/-- The name is registered and confirmed, and has no ALPN. -/
theorem oddEvents_unnamed :
    ∃ w, Run (Steps Iroh.hex.toStr) (Server.init sampleState) oddEvents w ∧
      "My Web" ∈ (w.state.groups "home").services ∧
      alpnForService "My Web" = .error (.invalidChars "My Web") ∧ ¬Named w := by
  have hrun := run_of_exec (Option.some_get exec_oddEvents).symm
  refine ⟨_, hrun, by decide, by decide, fun hnamed => ?_⟩
  have hok := (hnamed "home" "My Web" (by decide)).1
  revert hok
  decide

end MeshlyCore.Control
