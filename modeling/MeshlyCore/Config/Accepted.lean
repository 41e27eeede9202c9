import MeshlyCore.Config
import MeshlyCore.Lib.Checks

/-!
# What `validate` accepts

`config.rs`: the role of a configuration is inferred from the sections that are there, and each
role has a validation of its own. `ServerSections` and `ClientSections` say what the two ask for.

**Theorem (`oneRole_iff`).** `validate` accepts no mixture of the two roles, but for one kind: a
server configuration in order that also has a `group_token` or a static service. These two do not
count as client fields, and the server's validation does not look at them.
-/

namespace MeshlyCore.Config

open Registry Alpn Checks

/-! ## The loops -/

theorem validateGroups_eq_ok {seen : List String} {groups : List GroupConfig} :
    validateGroups seen groups = .ok () ↔
      Fresh seen (groups.map (·.name)) ∧ ∀ g ∈ groups, g.groupToken ≠ "" := by
  induction groups generalizing seen with
  | nil => simp [validateGroups, fresh_nil]
  | cons g groups ih =>
    simp only [validateGroups, ite_error_eq_ok, ih, List.map_cons, fresh_cons,
      List.forall_mem_cons]
    tauto

theorem validateOverrides_eq_ok {iroh : Iroh} {idx : ℕ} {seen : List EndpointId}
    {rows : List RelayRateOverride} :
    validateOverrides iroh idx seen rows = .ok () ↔
      ∃ ids, rows.map (fun row => parseEndpointId iroh row.nodeId) = ids.map some ∧
        Fresh seen ids := by
  induction rows generalizing idx seen with
  | nil =>
    simp only [validateOverrides, List.map_nil, true_iff]
    exact ⟨[], rfl, fresh_nil seen⟩
  | cons row rows ih =>
    simp only [validateOverrides, List.map_cons]
    cases hparse : parseEndpointId iroh row.nodeId with
    | none =>
      refine ⟨(fun h => by cases h), ?_⟩
      rintro ⟨_ | ⟨id, ids⟩, hids, -⟩
      · cases hids
      · cases hids
    | some id =>
      simp only [ite_error_eq_ok, ih]
      constructor
      · intro hleft
        obtain ⟨hid, ids, hids, hfresh⟩ := hleft
        exact ⟨id :: ids, by rw [hids, List.map_cons], fresh_cons.2 ⟨hid, hfresh⟩⟩
      · intro hright
        obtain ⟨_ | ⟨id', ids⟩, hids, hfresh⟩ := hright
        · cases hids
        · rw [List.map_cons] at hids
          obtain ⟨rfl, hrest⟩ : id = id' ∧ _ := by simpa using hids
          exact ⟨(fresh_cons.1 hfresh).1, ids, hrest, (fresh_cons.1 hfresh).2⟩

theorem validateDistinct_eq_ok {table : Table} {seen names : List String} :
    validateDistinct table seen names = .ok () ↔ Fresh seen names := by
  induction names generalizing seen with
  | nil => simp [validateDistinct, fresh_nil]
  | cons name names ih => simp only [validateDistinct, ite_error_eq_ok, ih, fresh_cons]

theorem forEach_eq_ok {α ε : Type} {check : α → Except ε Unit} {as : List α} :
    forEach check as = .ok () ↔ ∀ a ∈ as, check a = .ok () := by
  induction as with
  | nil => simp [forEach]
  | cons a as ih => simp only [forEach, then_eq_ok, ih, List.forall_mem_cons]

theorem validateEntry_eq_ok {table : Table} {name sharedSecret : String} :
    validateEntry table name sharedSecret = .ok () ↔
      validateServiceName name = .ok () ∧ sharedSecret ≠ "" := by
  simp only [validateEntry, then_eq_ok, mapError_eq_ok, ite_error_eq_ok, pure, Except.pure,
    and_true, ne_eq]

theorem name_of_validateExpose {e : ExposeConfig} (h : validateExpose e = .ok ()) :
    validateServiceName e.name = .ok () := by
  simp only [validateExpose, then_eq_ok, validateEntry_eq_ok] at h
  exact h.1.1

theorem name_of_validateStatic {paths : Paths} {s : StaticConfig}
    (h : validateStatic paths s = .ok ()) : validateServiceName s.name = .ok () := by
  simp only [validateStatic, then_eq_ok, validateEntry_eq_ok] at h
  exact h.1.1

theorem name_of_validateConsume {c : ConsumeConfig} (h : validateConsume c = .ok ()) :
    validateServiceName c.name = .ok () := by
  simp only [validateConsume, then_eq_ok, validateEntry_eq_ok] at h
  exact h.1.1

/-! ## The two roles -/

namespace RootConfig

/-- What the server's validation asks for. -/
structure ServerSections (iroh : Iroh) (cfg : RootConfig) : Prop where
  names : (cfg.groups.map (·.name)).Nodup
  tokens : ∀ g ∈ cfg.groups, g.groupToken ≠ ""
  /-- The rows of the override table have ids that parse, and to different ids. -/
  overrides : ∃ ids : List EndpointId, ((cfg.relay.map (·.rateOverrides)).getD []).map
    (fun row => parseEndpointId iroh row.nodeId) = ids.map some ∧ ids.Nodup

/-- What the client's validation asks for. -/
structure ClientSections (paths : Paths) (cfg : RootConfig) : Prop where
  relay : cfg.relay = none
  serverNodeId : ∃ id, cfg.serverNodeId = some id ∧ id ≠ ""
  groupToken : ∃ token, cfg.groupToken = some token ∧ token ≠ ""
  exposeNames : (cfg.expose.map (·.name)).Nodup
  consumeNames : (cfg.consume.map (·.name)).Nodup
  staticNames : (cfg.staticServices.map (·.name)).Nodup
  consumed : ∀ c ∈ cfg.consume,
    c.name ∉ cfg.expose.map (·.name) ∧ c.name ∉ cfg.staticServices.map (·.name)
  exposed : ∀ e ∈ cfg.expose, e.name ∉ cfg.staticServices.map (·.name)
  exposeEntries : ∀ e ∈ cfg.expose, validateExpose e = .ok ()
  staticEntries : ∀ s ∈ cfg.staticServices, validateStatic paths s = .ok ()
  consumeEntries : ∀ c ∈ cfg.consume, validateConsume c = .ok ()

variable {iroh : Iroh} {paths : Paths} {cfg : RootConfig}

theorem validateServer_eq_ok : cfg.validateServer iroh = .ok () ↔ cfg.ServerSections iroh := by
  simp only [validateServer, then_eq_ok, validateGroups_eq_ok, validateOverrides_eq_ok, fresh_empty]
  constructor
  · intro hleft
    obtain ⟨⟨hnames, htokens⟩, hids⟩ := hleft
    exact ⟨hnames, htokens, hids⟩
  · intro hright
    obtain ⟨hnames, htokens, hids⟩ := hright
    exact ⟨⟨hnames, htokens⟩, hids⟩

theorem validateClient_eq_ok :
    cfg.validateClient paths = .ok () ↔ cfg.ClientSections paths := by
  simp only [validateClient, error_bind, ite_error_eq_ok]
  cases hid : cfg.serverNodeId with
  | none =>
    refine ⟨fun h => absurd h.2 (by simp), fun h => ?_⟩
    obtain ⟨id, hsome, -⟩ := h.serverNodeId
    rw [hid] at hsome
    cases hsome
  | some id =>
    cases htoken : cfg.groupToken with
    | none =>
      refine ⟨fun h => absurd h.2 (by simp [ite_error_eq_ok]), fun h => ?_⟩
      obtain ⟨token, hsome, -⟩ := h.groupToken
      rw [htoken] at hsome
      cases hsome
    | some token =>
      simp only [ite_error_eq_ok, then_eq_ok, validateDistinct_eq_ok, fresh_empty, forEach_eq_ok,
        not_or, and_true]
      constructor
      · intro hleft
        obtain ⟨hrelay, hne, hne', hexpose, hconsume, hstatic, hconsumed, hexposed, he, hs, hc⟩ :=
          hleft
        exact ⟨by simpa using hrelay, ⟨id, hid, hne⟩, ⟨token, htoken, hne'⟩, hexpose, hconsume,
          hstatic, hconsumed, hexposed, he, hs, hc⟩
      · intro h
        obtain ⟨id', hid', hne⟩ := h.serverNodeId
        obtain ⟨token', htoken', hne'⟩ := h.groupToken
        obtain rfl := Option.some.inj (hid.symm.trans hid')
        obtain rfl := Option.some.inj (htoken.symm.trans htoken')
        exact ⟨by simp [h.relay], hne, hne', h.exposeNames, h.consumeNames, h.staticNames,
          h.consumed, h.exposed, h.exposeEntries, h.staticEntries, h.consumeEntries⟩

/-- The sections `validate` looks at to find the role, and the validation of the role. -/
theorem validate_eq_ok : cfg.validate iroh paths = .ok () ↔
    ((cfg.groups ≠ [] ∧ (cfg.serverNodeId = none ∧ cfg.expose = [] ∧ cfg.consume = []) ∧
        cfg.ServerSections iroh) ∨
      (cfg.groups = [] ∧ cfg.ClientSections paths)) ∧
    cfg.common.logging.level ∈ logLevels := by
  simp only [validate, error_bind, ite_error_eq_ok, pure, Except.pure]
  by_cases hgroups : cfg.groups = []
  · have hempty : cfg.groups.isEmpty = true := by simp [hgroups]
    simp only [hempty, Bool.not_true, Bool.not_false, Bool.false_and, Bool.true_and,
      Bool.false_eq_true, not_false_eq_true, true_and, if_false, then_eq_ok, validateClient_eq_ok,
      ite_error_eq_ok, not_not, and_true]
    constructor
    · intro hleft
      obtain ⟨-, hclient, hlevel⟩ := hleft
      exact ⟨.inr ⟨hgroups, hclient⟩, hlevel⟩
    · intro hright
      obtain ⟨hserver | hclient, hlevel⟩ := hright
      · exact absurd hgroups hserver.1
      · obtain ⟨id, hid, -⟩ := hclient.2.serverNodeId
        exact ⟨by simp [hid], hclient.2, hlevel⟩
  · have hsome : cfg.groups.isEmpty = false := by simpa using hgroups
    simp only [hsome, Bool.not_true, Bool.not_false, Bool.false_and, Bool.true_and,
      Bool.false_eq_true, not_false_eq_true, true_and, if_true, then_eq_ok, validateServer_eq_ok,
      ite_error_eq_ok, not_not, and_true]
    constructor
    · intro hleft
      obtain ⟨hfields, hserver, hlevel⟩ := hleft
      exact ⟨.inl ⟨hgroups, by simpa [and_assoc] using hfields, hserver⟩, hlevel⟩
    · intro hright
      obtain ⟨⟨-, hfields, hserver⟩ | hclient, hlevel⟩ := hright
      · exact ⟨by simpa [and_assoc] using hfields, hserver, hlevel⟩
      · exact absurd hclient.1 hgroups

theorem serverSections_of_validate (h : cfg.validate iroh paths = .ok ())
    (hserver : cfg.groups ≠ []) : cfg.ServerSections iroh := by
  rcases (validate_eq_ok.1 h).1 with hsections | hclient
  · exact hsections.2.2
  · exact absurd hclient.1 hserver

theorem clientSections_of_validate (h : cfg.validate iroh paths = .ok ())
    (hclient : cfg.groups = []) : cfg.ClientSections paths := by
  rcases (validate_eq_ok.1 h).1 with hserver | hsections
  · exact absurd hclient hserver.1
  · exact hsections.2

/-! ## Mixed roles -/

/-- The sections are those of one role. -/
structure OneRole (cfg : RootConfig) : Prop where
  server : cfg.groups ≠ [] → cfg.serverNodeId = none ∧ cfg.groupToken = none ∧ cfg.expose = [] ∧
    cfg.staticServices = [] ∧ cfg.consume = []
  client : cfg.groups = [] → cfg.relay = none

/-- A server configuration in order, without the client fields `validate` goes by, but with one of
the others. -/
structure MixedUnseen (iroh : Iroh) (cfg : RootConfig) : Prop where
  groups : cfg.groups ≠ []
  sections : cfg.ServerSections iroh
  level : cfg.common.logging.level ∈ logLevels
  seen : cfg.serverNodeId = none ∧ cfg.expose = [] ∧ cfg.consume = []
  unseen : cfg.groupToken ≠ none ∨ cfg.staticServices ≠ []

/-- **One role.** A configuration that `validate` accepts has the sections of one role, unless it
is a server configuration in order that has a `group_token` or a static service, and no other
client field. -/
theorem oneRole_iff (iroh : Iroh) (paths : Paths) (cfg : RootConfig) :
    (cfg.validate iroh paths = .ok () → cfg.OneRole) ↔ ¬cfg.MixedUnseen iroh := by
  constructor
  · intro hone hmixed
    have haccepted : cfg.validate iroh paths = .ok () :=
      validate_eq_ok.2 ⟨.inl ⟨hmixed.groups, hmixed.seen, hmixed.sections⟩, hmixed.level⟩
    obtain ⟨-, htoken, -, hstatic, -⟩ := (hone haccepted).server hmixed.groups
    rcases hmixed.unseen with hsome | hsome
    · exact hsome htoken
    · exact hsome hstatic
  · intro hmixed haccepted
    obtain ⟨⟨hgroups, hseen, hsections⟩ | ⟨hgroups, hclient⟩, hlevel⟩ := validate_eq_ok.1 haccepted
    · have hunseen : ¬(cfg.groupToken ≠ none ∨ cfg.staticServices ≠ []) := fun hunseen =>
        hmixed ⟨hgroups, hsections, hlevel, hseen, hunseen⟩
      obtain ⟨htoken, hstatic⟩ : cfg.groupToken = none ∧ cfg.staticServices = [] := by
        simpa using hunseen
      exact ⟨fun _ => ⟨hseen.1, htoken, hseen.2.1, hstatic, hseen.2.2⟩,
        fun hnone => absurd hnone hgroups⟩
    · exact ⟨fun hsome => absurd hgroups hsome, fun _ => hclient.relay⟩

/-- A server with a client's token, and one with a static service whose directory is not there. -/
theorem mixedRoles_accepted :
    (validate Iroh.hex emptyPaths { groups := [⟨"home", "t"⟩], groupToken := some "t" } = .ok () ∧
      ¬OneRole { groups := [⟨"home", "t"⟩], groupToken := some "t" }) ∧
    validate Iroh.hex emptyPaths { groups := [⟨"home", "t"⟩], staticServices :=
        [{ name := "www", rootDir := "/srv/www", sharedSecret := "s" }] } = .ok () ∧
      ¬OneRole { groups := [⟨"home", "t"⟩], staticServices :=
        [{ name := "www", rootDir := "/srv/www", sharedSecret := "s" }] } := by
  refine ⟨⟨by decide, fun h => ?_⟩, by decide, fun h => ?_⟩
  · exact absurd (h.server (by decide)).2.1 (by decide)
  · exact absurd (h.server (by decide)).2.2.2.1 (by decide)

end RootConfig

end MeshlyCore.Config
