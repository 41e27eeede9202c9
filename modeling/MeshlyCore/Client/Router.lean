import MeshlyCore.Config.Accepted

/-!
# The router of a client

`main.rs`: `run_client` registers one handler for each ALPN the client answers on, the control
plane first, then the exposed and the static services. The router keeps one handler for an ALPN,
so two of a kind would leave the earlier one out of reach.

**Theorem (`router_alpns`).** For every client configuration `validate` accepts, the setup
succeeds and registers the control plane and every service offered, each under its ALPN; the ALPNs
are different from each other and from the relay's, and none of them is dialled for a consumed
service.
-/

namespace MeshlyCore.Client

open Alpn Checks Config

inductive Handler where
  | controlResponse
  | expose (e : ExposeConfig)
  | static (s : StaticConfig)
  deriving DecidableEq

/-- What `run_client` registers on the router, in its order. -/
def registrations (cfg : RootConfig) : Except AlpnError (List (Bytes × Handler)) := do
  let exposed ← cfg.expose.mapM fun e => return (← alpnForService e.name, .expose e)
  let statics ← cfg.staticServices.mapM fun s => return (← alpnForService s.name, .static s)
  return (alpnControl, .controlResponse) :: (exposed ++ statics)

/-- The ALPN of a service under a valid name. -/
def alpnOf (name : String) : Bytes := utf8 ("meshly-core/" ++ name)

theorem alpnOf_injective : Function.Injective alpnOf := fun _ _ h =>
  (String.append_right_inj _).1 (utf8_injective h)

theorem alpnForService_of_valid {name : String} (h : validateServiceName name = .ok ()) :
    alpnForService name = .ok (alpnOf name) :=
  alpnForService_eq_ok.2 ⟨h, rfl⟩

theorem ne_reserved {name reserved : String} (h : validateServiceName name = .ok ())
    (hmem : reserved ∈ reservedNames) : name ≠ reserved := by
  rintro rfl
  exact ((validateServiceName_eq_ok name).1 h).2.2 hmem

/-- The names of the services a client offers. -/
def offered (cfg : RootConfig) : List String :=
  cfg.expose.map (·.name) ++ cfg.staticServices.map (·.name)

section Accepted

variable {paths : Paths} {cfg : RootConfig}

theorem offered_valid (h : cfg.ClientSections paths) :
    ∀ name ∈ offered cfg, validateServiceName name = .ok () := by
  intro name hname
  rcases List.mem_append.1 hname with hname | hname
  · obtain ⟨e, he, rfl⟩ := List.mem_map.1 hname
    exact name_of_validateExpose (h.exposeEntries e he)
  · obtain ⟨s, hs, rfl⟩ := List.mem_map.1 hname
    exact name_of_validateStatic (h.staticEntries s hs)

theorem nodup_offered (h : cfg.ClientSections paths) : (offered cfg).Nodup := by
  refine List.nodup_append'.2 ⟨h.exposeNames, h.staticNames, fun name hname hstatic => ?_⟩
  obtain ⟨e, he, rfl⟩ := List.mem_map.1 hname
  exact h.exposed e he hstatic

/-- The setup succeeds, and registers the control plane and what the client offers. -/
theorem registrations_of_accepted (h : cfg.ClientSections paths) :
    ∃ entries, registrations cfg = .ok entries ∧
      entries.map Prod.fst = ("control" :: offered cfg).map alpnOf ∧
      entries.map Prod.snd = .controlResponse ::
        (cfg.expose.map .expose ++ cfg.staticServices.map .static) := by
  have hexpose : (cfg.expose.mapM fun e => do return (← alpnForService e.name, Handler.expose e)) =
      .ok (cfg.expose.map fun e => (alpnOf e.name, Handler.expose e)) := by
    refine mapM_of_forall fun e he => ?_
    rw [alpnForService_of_valid (name_of_validateExpose (h.exposeEntries e he))]
    rfl
  have hstatic : (cfg.staticServices.mapM fun s => do
      return (← alpnForService s.name, Handler.static s)) =
      .ok (cfg.staticServices.map fun s => (alpnOf s.name, Handler.static s)) := by
    refine mapM_of_forall fun s hs => ?_
    rw [alpnForService_of_valid (name_of_validateStatic (h.staticEntries s hs))]
    rfl
  refine ⟨(alpnControl, .controlResponse) ::
    ((cfg.expose.map fun e => (alpnOf e.name, .expose e)) ++
      cfg.staticServices.map fun s => (alpnOf s.name, .static s)), ?_, ?_, ?_⟩
  · rw [registrations, hexpose, hstatic]
    rfl
  · simp only [offered, List.map_cons, List.map_append, List.map_map]
    rfl
  · simp only [List.map_cons, List.map_append, List.map_map]
    rfl

end Accepted

/-- **The router of a client.** It has a handler for the control plane and one for each service
offered, under its ALPN. Every ALPN is registered once, the relay's is not, and neither is that of a
service the client consumes. -/
theorem router_alpns (iroh : Iroh) (paths : Paths) (cfg : RootConfig)
    (h : cfg.validate iroh paths = .ok ()) (hclient : cfg.groups = []) :
    ∃ entries, registrations cfg = .ok entries ∧
      entries.map Prod.fst = ("control" :: offered cfg).map alpnOf ∧
      entries.map Prod.snd = .controlResponse ::
        (cfg.expose.map .expose ++ cfg.staticServices.map .static) ∧
      (entries.map Prod.fst).Nodup ∧ alpnData ∉ entries.map Prod.fst ∧
      ∀ c ∈ cfg.consume, ∃ alpn, alpnForService c.name = .ok alpn ∧
        alpn ∉ entries.map Prod.fst := by
  have hsections := RootConfig.clientSections_of_validate h hclient
  have hvalid := offered_valid hsections
  obtain ⟨entries, hentries, halpns, hhandlers⟩ := registrations_of_accepted hsections
  refine ⟨entries, hentries, halpns, hhandlers, ?_, ?_, fun c hc => ?_⟩
  · rw [halpns]
    refine (List.nodup_cons.2 ⟨fun hmem => ?_, nodup_offered hsections⟩).map alpnOf_injective
    exact ne_reserved (hvalid _ hmem) (by decide) rfl
  · -- The relay's ALPN is the one of the reserved name `data`.
    have hrelay : alpnData = alpnOf "data" := rfl
    rw [halpns, hrelay]
    intro hmem
    rcases List.mem_cons.1 ((List.mem_map_of_injective alpnOf_injective).1 hmem) with heq | hdata
    · exact absurd heq (by decide)
    · exact ne_reserved (hvalid _ hdata) (by decide) rfl
  · have hname := name_of_validateConsume (hsections.consumeEntries c hc)
    refine ⟨alpnOf c.name, alpnForService_of_valid hname, ?_⟩
    rw [halpns]
    intro hmem
    rcases List.mem_cons.1 ((List.mem_map_of_injective alpnOf_injective).1 hmem) with heq | hoffer
    · exact ne_reserved hname (by decide) heq
    · rcases List.mem_append.1 hoffer with hexpose | hstatic
      · exact (hsections.consumed c hc).1 hexpose
      · exact (hsections.consumed c hc).2 hstatic

/-- A client that offers a service and a directory, and uses another service. -/
def sampleClient : RootConfig where
  serverNodeId := some "abcd"
  groupToken := some "tok"
  expose := [⟨"ssh", "a"⟩]
  staticServices := [{ name := "www", rootDir := "/srv/www", sharedSecret := "b" }]
  consume := [⟨"web", "c"⟩]

/-- Every path is a directory. -/
def directories : Paths := ⟨fun _ => true, fun _ => true⟩

theorem router_alpns_sampleClient :
    sampleClient.validate Iroh.hex directories = .ok () ∧
      ∃ entries, registrations sampleClient = .ok entries ∧
        entries.map Prod.fst = ["control", "ssh", "www"].map alpnOf ∧
        entries.map Prod.snd = .controlResponse ::
          (sampleClient.expose.map .expose ++ sampleClient.staticServices.map .static) ∧
        (entries.map Prod.fst).Nodup ∧ alpnData ∉ entries.map Prod.fst ∧
        ∀ c ∈ sampleClient.consume, ∃ alpn, alpnForService c.name = .ok alpn ∧
          alpn ∉ entries.map Prod.fst :=
  ⟨by decide, router_alpns Iroh.hex directories sampleClient (by decide) rfl⟩

end MeshlyCore.Client
