import MeshlyCore.Alpn
import MeshlyCore.Control.Server

/-!
# What the relay admits

`RelayHandler::accept_loop`: a consumer that cannot reach its provider directly opens a stream to
the server and names the service and the provider it was told when it subscribed. The relay
checks the claim against the registry and dials the provider.

Subscriptions are resolved in the consumer's group. The relay does not know the consumer's
group: it takes the first record of that name in any group, in the order of the hash maps.

**Theorem (`subscribed_admitted_iff`).** A consumer that repeats what `Subscribe` told it is let
through to the provider, whatever these orders are, exactly when the name is a valid one and no
group has another provider for it.
-/

namespace MeshlyCore.Relay

open Protocol Registry Alpn

/-! ## Admission -/

/-- Why a stream is shut down without a tunnel. -/
inductive Refusal where
  | unreadable (e : FrameError)
  | notDataOpen (got : Frame)
  | badTarget (target : String)
  | badConsumer (claimed : String)
  | wrongConsumer (claimed : EndpointId)
  | otherProvider (actual : EndpointId)
  | notRegistered
  deriving DecidableEq

/-- What `run_relay` is spawned with. -/
structure Tunnel where
  provider : EndpointId
  targetService : String
  initialReplyBps : Option UInt64
  deriving DecidableEq

/-- `default_reply_bps` is the value of the default rate handle, when rate limiting is on. -/
structure RelayHandler where
  defaultReplyBps : Option UInt64

/-- The first record of a service in any group. -/
def lookupServiceAnyGroup (seen : Seen) (st : ServerState) (service : String) :
    Option EndpointId :=
  ((st.dumpServices seen).find? fun e => e.2.1 = service).map (·.2.2)

/-- One pass of `accept_loop`, for a stream of the peer `remote`. -/
def RelayHandler.acceptStream (iroh : Iroh) (h : RelayHandler) (st : ServerState) (seen : Seen)
    (remote : EndpointId) : Except FrameError Frame → Except Refusal Tunnel
  | .error e => .error (.unreadable e)
  | .ok (.dataOpen targetService targetProvider consumerNodeId _) =>
      match parseEndpointId iroh targetProvider with
      | none => .error (.badTarget targetProvider)
      | some target =>
          match parseEndpointId iroh consumerNodeId with
          | none => .error (.badConsumer consumerNodeId)
          | some consumer =>
              if consumer ≠ remote then .error (.wrongConsumer consumer)
              else
                match lookupServiceAnyGroup seen st targetService with
                | none => .error .notRegistered
                | some p =>
                    if p = target then
                      .ok ⟨p, targetService, h.defaultReplyBps.map fun default =>
                        (st.lookupRelayRateOverride consumer).getD default⟩
                    else .error (.otherProvider p)
  | .ok f => .error (.notDataOpen f)

/-- Where `run_relay` opens its tunnel: the endpoint and the ALPN it dials. -/
def runRelayDial (t : Tunnel) : Except AlpnError (EndpointId × Bytes) := do
  let alpn ← alpnForService t.targetService
  return (t.provider, alpn)

theorem runRelayDial_eq_ok {t : Tunnel} {p : EndpointId} {alpn : Bytes} :
    runRelayDial t = .ok (p, alpn) ↔
      alpnForService t.targetService = .ok alpn ∧ t.provider = p := by
  unfold runRelayDial
  cases h : alpnForService t.targetService with
  | error e => simp [bind, Except.bind]
  | ok a => simp [bind, Except.bind, pure, Except.pure, and_comm]

/-! ## Lookup in any group -/

/-- What is found is a record of some group. -/
theorem exists_group_of_lookupServiceAnyGroup {seen : Seen} {st : ServerState} {svc : String}
    {p : EndpointId} (hseen : st.Sees seen) (h : lookupServiceAnyGroup seen st svc = some p) :
    ∃ g, st.lookupService g svc = some p := by
  obtain ⟨⟨g, svc', p'⟩, hfind, rfl⟩ := Option.map_eq_some_iff.1 h
  obtain rfl : svc' = svc := by simpa using List.find?_some hfind
  exact ⟨g, (ServerState.mem_dumpServices hseen).1 (List.mem_of_find?_eq_some hfind)⟩

/-- Something is found when some group has the service. -/
theorem lookupServiceAnyGroup_isSome {seen : Seen} {st : ServerState} {g svc : String}
    {p : EndpointId} (hseen : st.Sees seen) (h : st.lookupService g svc = some p) :
    (lookupServiceAnyGroup seen st svc).isSome := by
  have hmem := (ServerState.mem_dumpServices hseen).2 h
  rw [lookupServiceAnyGroup, Option.isSome_map, List.find?_isSome]
  exact ⟨_, hmem, by simp⟩

/-- The group that comes first decides. -/
theorem lookupServiceAnyGroup_of_first {seen : Seen} {st : ServerState} {g svc : String}
    {rest : List String} {p : EndpointId} (hseen : st.Sees seen)
    (hkeys : st.tokens.keys = g :: rest) (h : st.lookupService g svc = some p) :
    lookupServiceAnyGroup seen st svc = some p := by
  have hg : g ∈ st.tokens.keys := by rw [hkeys]; exact List.mem_cons_self
  have hr := (ServerState.lookupService_eq_some.1 h).2
  rw [lookupServiceAnyGroup, ServerState.dumpServices, hkeys, List.flatMap_cons, List.find?_append]
  cases hfind : ((seen g).map fun e => (g, e.1, e.2.providerId)).find? fun e => e.2.1 = svc with
  | none =>
    have hrow := (ServerState.mem_rows hseen hg).2 ⟨rfl, hr⟩
    have := List.find?_eq_none.1 hfind _ hrow
    simp at this
  | some e =>
    obtain ⟨g', svc', p'⟩ := e
    obtain rfl : svc' = svc := by simpa using List.find?_some hfind
    obtain ⟨rfl, hr'⟩ := (ServerState.mem_rows hseen hg).1 (List.mem_of_find?_eq_some hfind)
    rw [hr] at hr'
    obtain rfl : p = p' := by simpa using hr'
    rfl

/-- The lookup gives `p` in every iteration order just when all records of the service are
`p`'s. -/
theorem lookupServiceAnyGroup_eq_iff {st : ServerState} {svc g : String} {p : EndpointId}
    (hp : st.lookupService g svc = some p) :
    (∀ st' : ServerState, st'.Reorders st → ∀ seen, st'.Sees seen →
      lookupServiceAnyGroup seen st' svc = some p) ↔
    ∀ g' p', st.lookupService g' svc = some p' → p' = p := by
  constructor
  · intro h g' p' hp'
    -- An order that comes to the record of `g'` first.
    obtain ⟨st', rest, hst', hkeys⟩ :=
      ServerState.exists_reorders (ServerState.lookupService_eq_some.1 hp').1
    have hseen : st'.Sees fun name => (st'.groups name).services.entries.toList :=
      fun name _ => Multiset.coe_toList _
    have hfirst := lookupServiceAnyGroup_of_first hseen hkeys
      ((hst'.lookupService g' svc).trans hp')
    rw [h st' hst' _ hseen] at hfirst
    exact (Option.some.inj hfirst).symm
  · intro h st' hst' seen hseen
    obtain ⟨q, hq⟩ := Option.isSome_iff_exists.1
      (lookupServiceAnyGroup_isSome hseen ((hst'.lookupService g svc).trans hp))
    obtain ⟨g', hg'⟩ := exists_group_of_lookupServiceAnyGroup hseen hq
    rw [hst'.lookupService] at hg'
    rw [hq, h g' q hg']

/-! ## Subscribe, then relay -/

section Subscribed

variable {iroh : Iroh} (hround : ∀ id, iroh.fromStr (iroh.toStr id) = some id)

include hround

theorem parseEndpointId_toStr (id : EndpointId) :
    parseEndpointId iroh (iroh.toStr id) = some id := by
  rw [parseEndpointId, hround]

/-- `Subscribe` answers with a provider when the registry has it. -/
theorem handleSubscribe_eq_some {st : ServerState} {g svc : String} {p : EndpointId}
    (h : Control.handleSubscribe iroh.toStr g ⟨svc⟩ st =
      (.replying g (.subscribeOk ⟨svc, some (iroh.toStr p), false⟩) true, .read)) :
    st.lookupService g svc = some p := by
  unfold Control.handleSubscribe at h
  cases hlook : st.lookupService g svc with
  | none => simp [hlook] at h
  | some q =>
    have hstr : iroh.toStr q = iroh.toStr p := by simpa [hlook] using h
    have hid : iroh.fromStr (iroh.toStr q) = iroh.fromStr (iroh.toStr p) := by rw [hstr]
    rwa [hround, hround] at hid

/-- A claim with the ids in order is admitted when the registry agrees with it. -/
theorem acceptStream_dataOpen (h : RelayHandler) (st : ServerState) (seen : Seen)
    (remote p : EndpointId) (svc : String) (proof : Bytes32) :
    (∃ t alpn, h.acceptStream iroh st seen remote
        (.ok (.dataOpen svc (iroh.toStr p) (iroh.toStr remote) proof)) = .ok t ∧
      runRelayDial t = .ok (p, alpn)) ↔
    validateServiceName svc = .ok () ∧ lookupServiceAnyGroup seen st svc = some p := by
  simp only [RelayHandler.acceptStream, parseEndpointId_toStr hround, ne_eq, not_true_eq_false,
    if_false]
  cases hlook : lookupServiceAnyGroup seen st svc with
  | none => simp
  | some q =>
    by_cases hq : q = p
    · subst hq
      simp [runRelayDial_eq_ok, alpnForService_eq_ok]
    · simp [hq]

end Subscribed

/-- **Subscribe, then relay.** When `Subscribe` in group `g` answers `p` for `svc`, a `DataOpen`
with that answer and the sender's own id gets a tunnel to `p` in every iteration order of the
registry, if and only if the name is valid and no group has another provider for it. -/
theorem subscribed_admitted_iff {iroh : Iroh}
    (hround : ∀ id, iroh.fromStr (iroh.toStr id) = some id) (h : RelayHandler) {st : ServerState}
    {g svc : String} {p : EndpointId}
    (hsub : Control.handleSubscribe iroh.toStr g ⟨svc⟩ st =
      (.replying g (.subscribeOk ⟨svc, some (iroh.toStr p), false⟩) true, .read))
    (remote : EndpointId) (proof : Bytes32) :
    (∀ st' : ServerState, st'.Reorders st → ∀ seen, st'.Sees seen →
      ∃ t alpn, h.acceptStream iroh st' seen remote
          (.ok (.dataOpen svc (iroh.toStr p) (iroh.toStr remote) proof)) = .ok t ∧
        runRelayDial t = .ok (p, alpn)) ↔
    validateServiceName svc = .ok () ∧ ∀ g' p', st.lookupService g' svc = some p' → p' = p := by
  have hp := handleSubscribe_eq_some hround hsub
  simp only [acceptStream_dataOpen hround]
  rw [← lookupServiceAnyGroup_eq_iff hp]
  constructor
  · intro hall
    have hseen : st.Sees fun name => (st.groups name).services.entries.toList :=
      fun name _ => Multiset.coe_toList _
    exact ⟨(hall st (.refl st) _ hseen).1, fun st' hst' seen h => (hall st' hst' seen h).2⟩
  · intro hall st' hst' seen hseen
    exact ⟨hall.1, hall.2 st' hst' seen hseen⟩

/-! ## Two groups with a service of the same name -/

open Control Machine

/-- The consumer. -/
def carol : EndpointId := ⟨.replicate 3⟩

/-- Alice provides "web" in her group. -/
def webServer : Server :=
  (exec (Server.next Iroh.hex.toStr) (Server.init sampleState)
    (joinEvents 0 alice "token" ++ registerEvents 0 "web")).get (by decide)

/-- Alice's record, as an iteration over her group's services gives it. -/
def webSeen : Seen := fun _ => [⟨"web", ⟨alice⟩⟩]

theorem subscribed_admitted_web :
    ∃ t alpn, (RelayHandler.mk none).acceptStream Iroh.hex webServer.state webSeen carol
        (.ok (.dataOpen "web" (Iroh.hex.toStr alice) (Iroh.hex.toStr carol) (.replicate 0))) =
        .ok t ∧
      runRelayDial t = .ok (alice, alpn) := by
  have hseen : webServer.state.Sees webSeen := by decide
  have hsub : handleSubscribe Iroh.hex.toStr "home" ⟨"web"⟩ webServer.state =
      (.replying "home" (.subscribeOk ⟨"web", some (Iroh.hex.toStr alice), false⟩) true, .read) :=
    rfl
  refine (subscribed_admitted_iff Iroh.hex_fromStr_toStr ⟨none⟩ hsub carol (.replicate 0)).2
    ⟨by decide, fun g' p' hp' => ?_⟩ webServer.state (.refl _) webSeen hseen
  have hmem := (ServerState.mem_dumpServices hseen).2 hp'
  have hdump : webServer.state.dumpServices webSeen = [("home", "web", alice)] := by decide
  rw [hdump, List.mem_singleton] at hmem
  exact (Prod.mk.inj (Prod.mk.inj hmem).2).2

/-- Alice provides "web" in one group, and Bob in another. -/
def twoGroups : ServerState := .new [⟨"home", "h"⟩, ⟨"work", "w"⟩] []

def sameNameEvents : List Event :=
  joinEvents 0 alice "h" ++ registerEvents 0 "web" ++ joinEvents 1 bob "w" ++ registerEvents 1 "web"

theorem exec_sameNameEvents :
    (exec (Server.next Iroh.hex.toStr) (Server.init twoGroups) sameNameEvents).isSome := by
  decide

def sameNameSeen : Seen := fun name => [⟨"web", ⟨if name = "home" then alice else bob⟩⟩]

/-- A consumer in Alice's group is told of Alice, and the relay that comes to Bob's record first
refuses to let it through to her. -/
theorem sameName_refused :
    ∃ w, Run (Steps Iroh.hex.toStr) (Server.init twoGroups) sameNameEvents w ∧
      handleSubscribe Iroh.hex.toStr "home" ⟨"web"⟩ w.state =
        (.replying "home" (.subscribeOk ⟨"web", some (Iroh.hex.toStr alice), false⟩) true, .read) ∧
      w.state.Sees sameNameSeen ∧
      (RelayHandler.mk none).acceptStream Iroh.hex w.state sameNameSeen carol
        (.ok (.dataOpen "web" (Iroh.hex.toStr alice) (Iroh.hex.toStr carol) (.replicate 0))) =
        .error (.otherProvider bob) :=
  ⟨_, run_of_exec (Option.some_get exec_sameNameEvents).symm, rfl, by decide, by decide⟩

end MeshlyCore.Relay
