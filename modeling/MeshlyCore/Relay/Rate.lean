import MeshlyCore.Config.Accepted
import MeshlyCore.Relay.Admission

/-!
# The rate a consumer gets

`main.rs` and `RelayHandler::accept_loop`: the reply rate of a tunnel is the consumer's row of the
override table, or the default rate, and none at all when rate limiting is off. The table is
parsed once for validation and once more for the registry, and the consumer is the one its frame
names; but the relay has checked that name against the connection's peer.

**Theorem (`reply_rate`).** The rate of an admitted stream is a function of the configuration and
the peer of its connection. Neither the frame nor the rest of the registry has a part in it.
-/

namespace MeshlyCore.Relay

open Protocol Registry Config Machine

/-- The handler the server makes of its configuration. -/
def relayHandler (cfg : RootConfig) : RelayHandler where
  defaultReplyBps :=
    let relayEnabled := (cfg.relay.map (·.enabled)).getD false
    if relayEnabled then some ((cfg.relay.map (·.bytesPerSec)).getD (100 * 1024)) else none

/-- A registry with the override table of the configuration. -/
def HasOverrides (iroh : Iroh) (cfg : RootConfig) (st : ServerState) : Prop :=
  st.relayRateOverrides = (cfg.serverState iroh).relayRateOverrides

/-- The server never writes to the table. -/
theorem hasOverrides_run {iroh : Iroh} {cfg : RootConfig} {st : ServerState}
    {toStr : EndpointId → String} {es : List Control.Event} {w : Control.Server}
    (h : Run (Control.Steps toStr) (Control.Server.init st) es w)
    (hst : HasOverrides iroh cfg st) : HasOverrides iroh cfg w.state := by
  refine Run.invariant (P := fun w : Control.Server => HasOverrides iroh cfg w.state) ?_ h hst
  intro u e v hs hu
  have happly : ∀ op : Op, (op.apply u.state).relayRateOverrides = u.state.relayRateOverrides := by
    intro op
    cases op <;> rfl
  rcases Control.step_effect hs with ⟨a, g, client, d, d', op, -, -, -, hstate, -⟩ | ⟨op, hstate, -⟩
  · rw [HasOverrides, hstate, happly]
    exact hu
  · rw [HasOverrides, hstate, happly]
    exact hu

/-! ## The table of the registry -/

section Table

variable {es : List (EndpointId × UInt64)} {m : Finmap fun _ : EndpointId => UInt64}

theorem lookup_foldl_of_notMem {id : EndpointId} (h : id ∉ es.map Prod.fst) :
    (es.foldl (fun m e => m.insert e.1 e.2) m).lookup id = m.lookup id := by
  induction es generalizing m with
  | nil => rfl
  | cons e es ih =>
    rw [List.map_cons, List.mem_cons, not_or] at h
    rw [List.foldl_cons, ih h.2, Finmap.lookup_insert_of_ne m h.1]

theorem lookup_foldl_append {post : List (EndpointId × UInt64)} {id : EndpointId} {bps : UInt64}
    (h : id ∉ post.map Prod.fst) :
    ((es ++ (id, bps) :: post).foldl (fun m e => m.insert e.1 e.2) m).lookup id = some bps := by
  rw [List.foldl_append, List.foldl_cons, lookup_foldl_of_notMem h, Finmap.lookup_insert]

end Table

/-- The rows that parse, as the registry gets them. -/
def parsedRows (iroh : Iroh) (rows : List RelayRateOverride) : List (EndpointId × UInt64) :=
  rows.filterMap fun o => (parseEndpointId iroh o.nodeId).map fun id => (id, o.bytesPerSec)

section Rows

variable {iroh : Iroh} {rows : List RelayRateOverride} {id : EndpointId}

theorem notMem_parsedRows (h : ∀ row ∈ rows, parseEndpointId iroh row.nodeId ≠ some id) :
    id ∉ (parsedRows iroh rows).map Prod.fst := by
  intro hmem
  obtain ⟨e, he, rfl⟩ := List.mem_map.1 hmem
  obtain ⟨row, hrow, hparse⟩ := List.mem_filterMap.1 he
  obtain ⟨id, hid, rfl⟩ := Option.map_eq_some_iff.1 hparse
  exact h row hrow hid

/-- The one row that parses to `id`. -/
structure OneRow (iroh : Iroh) (rows : List RelayRateOverride) (id : EndpointId)
    (row : RelayRateOverride) : Prop where
  parses : parseEndpointId iroh row.nodeId = some id
  only : ∃ pre post, rows = pre ++ row :: post ∧
    ∀ other ∈ pre ++ post, parseEndpointId iroh other.nodeId ≠ some id

/-- With distinct ids, a row that parses to `id` is the only one. -/
theorem oneRow_of_mem {ids : List EndpointId} {row : RelayRateOverride}
    (hids : rows.map (fun row => parseEndpointId iroh row.nodeId) = ids.map some)
    (hnodup : ids.Nodup) (hrow : row ∈ rows) (hparse : parseEndpointId iroh row.nodeId = some id) :
    OneRow iroh rows id row := by
  obtain ⟨pre, post, rfl⟩ := List.append_of_mem hrow
  refine ⟨hparse, pre, post, rfl, fun other hother heq => ?_⟩
  have hdistinct : ((pre ++ row :: post).map
      fun row => parseEndpointId iroh row.nodeId).Nodup := by
    rw [hids]
    exact hnodup.map (Option.some_injective _)
  rw [List.map_append, List.map_cons, hparse, List.nodup_middle] at hdistinct
  refine (List.nodup_cons.1 hdistinct).1 ?_
  rw [← List.map_append]
  exact List.mem_map.2 ⟨other, hother, heq⟩

theorem lookup_parsedRows_of_oneRow {row : RelayRateOverride} (h : OneRow iroh rows id row) :
    ((parsedRows iroh rows).foldl (fun m e => m.insert e.1 e.2)
      (∅ : Finmap fun _ : EndpointId => UInt64)).lookup id = some row.bytesPerSec := by
  obtain ⟨pre, post, rfl, hother⟩ := h.only
  have hsplit : parsedRows iroh (pre ++ row :: post) =
      parsedRows iroh pre ++ (id, row.bytesPerSec) :: parsedRows iroh post := by
    simp [parsedRows, h.parses]
  rw [hsplit]
  refine lookup_foldl_append (notMem_parsedRows fun other hmem => ?_)
  exact hother other (List.mem_append_right pre hmem)

theorem lookup_parsedRows_of_none (h : ∀ row ∈ rows, parseEndpointId iroh row.nodeId ≠ some id) :
    ((parsedRows iroh rows).foldl (fun m e => m.insert e.1 e.2)
      (∅ : Finmap fun _ : EndpointId => UInt64)).lookup id = none :=
  (lookup_foldl_of_notMem (notMem_parsedRows h)).trans (Finmap.lookup_empty id)

end Rows

/-! ## The rate of a stream -/

/-- What the handler and the table make of a peer. -/
def replyRate (iroh : Iroh) (cfg : RootConfig) (peer : EndpointId) : Option UInt64 :=
  (relayHandler cfg).defaultReplyBps.map fun default =>
    ((cfg.serverState iroh).lookupRelayRateOverride peer).getD default

/-- An admitted stream has the rate of the connection's peer. -/
theorem initialReplyBps_of_ok {iroh : Iroh} {h : RelayHandler} {st : ServerState} {seen : Seen}
    {remote : EndpointId} {frame : Except FrameError Frame} {t : Tunnel}
    (ht : h.acceptStream iroh st seen remote frame = .ok t) :
    t.initialReplyBps =
      h.defaultReplyBps.map fun default => (st.lookupRelayRateOverride remote).getD default := by
  unfold RelayHandler.acceptStream at ht
  split at ht
  · cases ht
  · split at ht
    · cases ht
    · split at ht
      · cases ht
      · split_ifs at ht with hpeer
        split at ht
        · cases ht
        · split_ifs at ht
          obtain rfl := Except.ok.inj ht
          rw [not_not.1 hpeer]
  · cases ht

theorem replyRate_eq_none {iroh : Iroh} {cfg : RootConfig} {peer : EndpointId} :
    replyRate iroh cfg peer = none ↔ ∀ relay, cfg.relay = some relay → relay.enabled = false := by
  rw [replyRate, Option.map_eq_none_iff, relayHandler]
  cases cfg.relay with
  | none => simp
  | some relay => simp

theorem replyRate_of_enabled {iroh : Iroh} {cfg : RootConfig} {relay : RelayConfig}
    (hrelay : cfg.relay = some relay) (henabled : relay.enabled) (peer : EndpointId) :
    replyRate iroh cfg peer =
      some ((((parsedRows iroh relay.rateOverrides).foldl (fun m e => m.insert e.1 e.2)
        (∅ : Finmap fun _ : EndpointId => UInt64)).lookup peer).getD relay.bytesPerSec) := by
  simp only [replyRate, relayHandler, RootConfig.serverState, RootConfig.rateOverrides,
    ServerState.lookupRelayRateOverride, ServerState.new, hrelay, Option.map_some,
    Option.getD_some, henabled, if_true, parsedRows]

/-- **The rate of a consumer.** For an accepted server configuration there is one rate for each
peer: none if rate limiting is absent or off, that of the one row of the peer, or the default.
Every stream the relay admits for the peer has it, whatever its frame and the registry are. -/
theorem reply_rate (iroh : Iroh) (paths : Paths) (cfg : RootConfig)
    (haccepted : cfg.validate iroh paths = .ok ()) (hserver : cfg.groups ≠ []) :
    ∃ rate : EndpointId → Option UInt64,
      (∀ peer, rate peer = none ↔ ∀ relay, cfg.relay = some relay → relay.enabled = false) ∧
      (∀ peer relay, cfg.relay = some relay → relay.enabled →
        (∃ row, OneRow iroh relay.rateOverrides peer row ∧ rate peer = some row.bytesPerSec) ∨
          ((∀ row ∈ relay.rateOverrides, parseEndpointId iroh row.nodeId ≠ some peer) ∧
            rate peer = some relay.bytesPerSec)) ∧
      ∀ st seen peer frame t, HasOverrides iroh cfg st →
        (relayHandler cfg).acceptStream iroh st seen peer frame = .ok t →
          t.initialReplyBps = rate peer := by
  refine ⟨replyRate iroh cfg, fun peer => replyRate_eq_none, fun peer relay hrelay henabled => ?_,
    fun st seen peer frame t hst ht => ?_⟩
  · have hsections := RootConfig.serverSections_of_validate haccepted hserver
    obtain ⟨ids, hids, hnodup⟩ := hsections.overrides
    rw [hrelay, Option.map_some, Option.getD_some] at hids
    rw [replyRate_of_enabled hrelay henabled]
    by_cases hrow : ∃ row ∈ relay.rateOverrides, parseEndpointId iroh row.nodeId = some peer
    · obtain ⟨row, hmem, hparse⟩ := hrow
      have hone := oneRow_of_mem hids hnodup hmem hparse
      exact .inl ⟨row, hone, by rw [lookup_parsedRows_of_oneRow hone, Option.getD_some]⟩
    · have hnone : ∀ row ∈ relay.rateOverrides, parseEndpointId iroh row.nodeId ≠ some peer :=
        fun row hmem hparse => hrow ⟨row, hmem, hparse⟩
      exact .inr ⟨hnone, by rw [lookup_parsedRows_of_none hnone, Option.getD_none]⟩
  · rw [initialReplyBps_of_ok ht, ServerState.lookupRelayRateOverride, hst]
    rfl

/-! ## Carol's own rate -/

open Control

/-- Carol has a row of her own. -/
def ratedConfig : RootConfig where
  groups := [⟨"home", "token"⟩]
  relay := some { enabled := true, rateOverrides := [⟨Iroh.hex.toStr carol, 500⟩] }

theorem exec_rated :
    (exec (Server.next Iroh.hex.toStr) (Server.init (ratedConfig.serverState Iroh.hex))
      (joinEvents 0 alice "token" ++ registerEvents 0 "web")).isSome := by
  decide

/-- Alice provides "web" on a server of this configuration. -/
def ratedServer : Server := Option.get _ exec_rated

theorem reply_rate_carol :
    ∃ t, (relayHandler ratedConfig).acceptStream Iroh.hex ratedServer.state webSeen carol
        (.ok (.dataOpen "web" (Iroh.hex.toStr alice) (Iroh.hex.toStr carol) (.replicate 0))) =
        .ok t ∧ t.initialReplyBps = some 500 := by
  obtain ⟨rate, -, hrows, hrate⟩ := reply_rate Iroh.hex RootConfig.emptyPaths ratedConfig
    (by decide) (by decide)
  have htable : HasOverrides Iroh.hex ratedConfig ratedServer.state :=
    hasOverrides_run (run_of_exec (Option.some_get exec_rated).symm) rfl
  have hadmitted : (relayHandler ratedConfig).acceptStream Iroh.hex ratedServer.state webSeen carol
      (.ok (.dataOpen "web" (Iroh.hex.toStr alice) (Iroh.hex.toStr carol) (.replicate 0))) =
      .ok ⟨alice, "web", some 500⟩ := by
    decide
  refine ⟨_, hadmitted, ?_⟩
  rw [hrate _ _ _ _ _ htable hadmitted]
  rcases hrows carol _ rfl rfl with ⟨row, hone, hrow⟩ | ⟨hnone, -⟩
  · obtain ⟨pre, post, hsplit, -⟩ := hone.only
    have hmem : row ∈ [RelayRateOverride.mk (Iroh.hex.toStr carol) 500] := by
      refine (congrArg (row ∈ ·) hsplit).mpr ?_
      exact List.mem_append_right pre List.mem_cons_self
    rw [hrow, List.mem_singleton.1 hmem]
  · exact absurd (by decide) (hnone _ List.mem_cons_self)

end MeshlyCore.Relay
