import MeshlyCore.Endpoint

/-!
# The server's registry

`registry.rs`: groups of clients, each with a map of sessions (client to last heartbeat) and a
map of services (name to provider). A group is shared between the sessions in it and its two
maps are concurrent maps, so what one session can do at a time is one map operation. These are
the constructors of `Op`; `drop_session` is several of them and is cut up in `Registry.Sweep`.

The maps are finite maps without an order. The group map is built once and never changes, so
its iteration order is fixed, but arbitrary: it is the order of `tokens`.
-/

namespace MeshlyCore.Registry

/-- `Instant`, in nanoseconds. -/
abbrev Instant := ℤ

structure Session where
  lastHeartbeat : Instant
  deriving DecidableEq

structure ServiceRecord where
  providerId : EndpointId
  deriving DecidableEq

/-- The two maps of a group. -/
structure Group where
  sessions : Finmap fun _ : EndpointId => Session
  services : Finmap fun _ : String => ServiceRecord

def Group.empty : Group := ⟨∅, ∅⟩

/-- Reasons a service registration can be rejected. -/
inductive RegisterError where
  | badName
  deriving DecidableEq

def RegisterError.message : RegisterError → String
  | .badName => "invalid service name"

/-! ## Map operations -/

namespace Group

def insertService (service : String) (provider : EndpointId) (g : Group) : Group :=
  { g with services := g.services.insert service ⟨provider⟩ }

/-- The previous provider, if there was one, and the group afterwards. -/
def registerService (service : String) (provider : EndpointId) (g : Group) :
    Except RegisterError (Option EndpointId × Group) :=
  if (utf8 service).length > 32 then .error .badName
  else .ok ((g.services.lookup service).map (·.providerId), g.insertService service provider)

/-- Insert or update a session for `client`. -/
def touchSession (client : EndpointId) (now : Instant) (g : Group) : Group :=
  { g with sessions := g.sessions.insert client ⟨now⟩ }

def removeSession (client : EndpointId) (g : Group) : Group :=
  { g with sessions := g.sessions.erase client }

def removeService (service : String) (g : Group) : Group :=
  { g with services := g.services.erase service }

/-- The services a client provides. -/
def owned (client : EndpointId) (g : Group) : Finset String :=
  g.services.keys.filter fun svc => g.services.lookup svc = some ⟨client⟩

/-- The sessions without a heartbeat since `cutoff`. -/
def expired (cutoff : Instant) (g : Group) : Finset EndpointId :=
  g.sessions.keys.filter fun client =>
    ∃ s ∈ g.sessions.lookup client, s.lastHeartbeat < cutoff

end Group

/-! ## Server state -/

structure GroupConfig where
  name : String
  groupToken : String
  deriving DecidableEq

/-- What an iteration over the service map of each group gives. -/
abbrev Seen := String → List (Sigma fun _ : String => ServiceRecord)

structure ServerState where
  /-- The names of the groups with their tokens, in the iteration order of the group map. -/
  tokens : AList fun _ : String => String
  /-- The maps of each group. -/
  groups : String → Group
  /-- Reply-rate overrides, in bytes per second, by consumer. -/
  relayRateOverrides : Finmap fun _ : EndpointId => UInt64

namespace ServerState

/-- The registry of a configuration; a later entry of the same key replaces an earlier one. -/
def new (groups : List GroupConfig) (rateOverrides : List (EndpointId × UInt64)) :
    ServerState where
  tokens := groups.foldl (fun m g => m.insert g.name g.groupToken) ∅
  groups := fun _ => .empty
  relayRateOverrides := rateOverrides.foldl (fun m e => m.insert e.1 e.2) ∅

/-- `st'` is `st` with another iteration order of the group map. -/
def Reorders (st' st : ServerState) : Prop :=
  st'.tokens.entries.Perm st.tokens.entries ∧ st'.groups = st.groups ∧
    st'.relayRateOverrides = st.relayRateOverrides

/-- `st` is what a server starts with: some configuration, in some iteration order. -/
def Initial (st : ServerState) : Prop :=
  ∃ cfg overrides, cfg ≠ [] ∧ st.Reorders (new cfg overrides)

theorem Initial.groups_eq {st : ServerState} (h : st.Initial) (g : String) :
    st.groups g = .empty := by
  obtain ⟨cfg, overrides, -, -, hgroups, -⟩ := h
  rw [hgroups]
  rfl

/-- Look up a group by name. -/
def group (name : String) (st : ServerState) : Option Group :=
  if name ∈ st.tokens then some (st.groups name) else none

/-- The name of the first group with this token. -/
def authenticate (token : String) (st : ServerState) : Option String :=
  (st.tokens.entries.find? fun e => e.2 = token).map (·.1)

/-- The provider of a service of a group. -/
def lookupService (groupName service : String) (st : ServerState) : Option EndpointId :=
  (st.group groupName).bind fun g => (g.services.lookup service).map (·.providerId)

/-- The (group, service, provider) triples, with the services of each group as they are seen. -/
def dumpServices (seen : Seen) (st : ServerState) : List (String × String × EndpointId) :=
  st.tokens.keys.flatMap fun name => (seen name).map fun e => (name, e.1, e.2.providerId)

/-- `seen` lists the services of every group, in some order. -/
def Sees (st : ServerState) (seen : Seen) : Prop :=
  ∀ name ∈ st.tokens.keys, (seen name : Multiset _) = (st.groups name).services.entries

instance (st : ServerState) (seen : Seen) : Decidable (st.Sees seen) :=
  inferInstanceAs (Decidable (∀ name ∈ st.tokens.keys, _))

/-- The reply-rate override of a consumer. -/
def lookupRelayRateOverride (consumer : EndpointId) (st : ServerState) : Option UInt64 :=
  st.relayRateOverrides.lookup consumer

/-- Change the maps of one group. -/
def update (name : String) (f : Group → Group) (st : ServerState) : ServerState :=
  { st with groups := Function.update st.groups name (f (st.groups name)) }

theorem lookupService_eq_some {st : ServerState} {g svc : String} {p : EndpointId} :
    st.lookupService g svc = some p ↔
      g ∈ st.tokens ∧ (st.groups g).services.lookup svc = some ⟨p⟩ := by
  rw [lookupService, group]
  by_cases hg : g ∈ st.tokens
  · rw [if_pos hg, Option.bind_some, Option.map_eq_some_iff]
    constructor
    · intro h
      obtain ⟨r, hr, rfl⟩ := h
      exact ⟨hg, hr⟩
    · intro h
      exact ⟨⟨p⟩, h.2, rfl⟩
  · simp [hg]

section Dump

variable {st : ServerState} {seen : Seen} {name g svc : String} {p : EndpointId}

/-- The rows of one group. -/
theorem mem_rows (hseen : st.Sees seen) (hname : name ∈ st.tokens.keys) :
    (g, svc, p) ∈ (seen name).map (fun e => (name, e.1, e.2.providerId)) ↔
      name = g ∧ (st.groups name).services.lookup svc = some ⟨p⟩ := by
  rw [List.mem_map, Finmap.lookup_eq_some_iff, ← hseen name hname]
  simp only [Multiset.mem_coe]
  constructor
  · intro h
    obtain ⟨⟨svc', r⟩, hmem, heq⟩ := h
    obtain ⟨rfl, rfl, rfl⟩ : name = g ∧ svc' = svc ∧ r.providerId = p := by simpa using heq
    exact ⟨rfl, hmem⟩
  · intro h
    obtain ⟨rfl, hmem⟩ := h
    exact ⟨⟨svc, ⟨p⟩⟩, hmem, rfl⟩

theorem mem_dumpServices (hseen : st.Sees seen) :
    (g, svc, p) ∈ st.dumpServices seen ↔ st.lookupService g svc = some p := by
  rw [dumpServices, List.mem_flatMap, lookupService_eq_some]
  constructor
  · intro h
    obtain ⟨name, hname, hrow⟩ := h
    obtain ⟨rfl, hr⟩ := (mem_rows hseen hname).1 hrow
    exact ⟨AList.mem_keys.2 hname, hr⟩
  · intro h
    have hg : g ∈ st.tokens.keys := AList.mem_keys.1 h.1
    exact ⟨g, hg, (mem_rows hseen hg).2 ⟨rfl, h.2⟩⟩

end Dump

section Tokens

variable {cfg : List GroupConfig}

theorem mem_entries_foldl {m : AList fun _ : String => String}
    (hnames : (cfg.map (·.name)).Nodup) (hm : ∀ gc ∈ cfg, gc.name ∉ m)
    (e : Sigma fun _ : String => String) :
    e ∈ (cfg.foldl (fun m g => m.insert g.name g.groupToken) m).entries ↔
      e ∈ m.entries ∨ ∃ gc ∈ cfg, e = ⟨gc.name, gc.groupToken⟩ := by
  induction cfg generalizing m with
  | nil => simp
  | cons gc cfg ih =>
    obtain ⟨hnot, hnames⟩ := List.nodup_cons.1 hnames
    have hm' : ∀ gc' ∈ cfg, gc'.name ∉ m.insert gc.name gc.groupToken := by
      intro gc' hgc' hmem
      rcases (AList.mem_insert m).1 hmem with heq | hmem
      · exact hnot (List.mem_map.2 ⟨gc', hgc', heq⟩)
      · exact hm gc' (List.mem_cons_of_mem _ hgc') hmem
    rw [List.foldl_cons, ih hnames hm',
      AList.entries_insert_of_notMem (hm gc List.mem_cons_self)]
    simp only [List.mem_cons, exists_eq_or_imp]
    tauto

/-- A configuration with distinct names has the tokens it says, in any iteration order. -/
theorem mem_tokens_of_reorders {overrides : List (EndpointId × UInt64)} {st : ServerState}
    (hst : st.Reorders (new cfg overrides)) (hnames : (cfg.map (·.name)).Nodup)
    (e : Sigma fun _ : String => String) :
    e ∈ st.tokens.entries ↔ ∃ gc ∈ cfg, e = ⟨gc.name, gc.groupToken⟩ := by
  have h := mem_entries_foldl (m := ∅) hnames (fun gc _ => AList.notMem_empty gc.name) e
  rw [hst.1.mem_iff]
  exact h.trans (by simp)

/-- With distinct tokens, a token lets into its own group. -/
theorem authenticate_iff {overrides : List (EndpointId × UInt64)} {st : ServerState}
    (hst : st.Reorders (new cfg overrides)) (hnames : (cfg.map (·.name)).Nodup)
    (htokens : (cfg.map (·.groupToken)).Nodup) {gc : GroupConfig} (hgc : gc ∈ cfg) (t : String) :
    st.authenticate t = some gc.name ↔ t = gc.groupToken := by
  have hmem := mem_tokens_of_reorders hst hnames
  unfold authenticate
  constructor
  · intro h
    obtain ⟨e, he, hname⟩ := Option.map_eq_some_iff.1 h
    have ht : e.2 = t := by simpa using List.find?_some he
    obtain ⟨gc', hgc', rfl⟩ := (hmem e).1 (List.mem_of_find?_eq_some he)
    obtain rfl := List.inj_on_of_nodup_map hnames hgc' hgc hname
    exact ht.symm
  · intro h
    subst h
    have hsome : (st.tokens.entries.find? fun e => e.2 = gc.groupToken).isSome := by
      rw [List.find?_isSome]
      exact ⟨⟨gc.name, gc.groupToken⟩, (hmem _).2 ⟨gc, hgc, rfl⟩, by simp⟩
    obtain ⟨e, he⟩ := Option.isSome_iff_exists.1 hsome
    have ht : e.2 = gc.groupToken := by simpa using List.find?_some he
    obtain ⟨gc', hgc', rfl⟩ := (hmem e).1 (List.mem_of_find?_eq_some he)
    obtain rfl := List.inj_on_of_nodup_map htokens hgc' hgc ht
    rw [he]
    rfl

end Tokens

theorem Reorders.refl (st : ServerState) : st.Reorders st := ⟨.refl _, rfl, rfl⟩

/-- Lookups do not depend on the iteration order. -/
theorem Reorders.lookupService {st st' : ServerState} (h : st'.Reorders st) (g svc : String) :
    st'.lookupService g svc = st.lookupService g svc := by
  have hkeys : g ∈ st'.tokens ↔ g ∈ st.tokens := AList.mem_of_perm h.1
  rw [ServerState.lookupService, ServerState.lookupService, group, group, h.2.1]
  simp only [hkeys]

/-- Any group may come first. -/
theorem exists_reorders {st : ServerState} {g : String} (hg : g ∈ st.tokens) :
    ∃ (st' : ServerState) (rest : List String), st'.Reorders st ∧ st'.tokens.keys = g :: rest := by
  obtain ⟨e, he, rfl⟩ := List.mem_map.1 (AList.mem_keys.1 hg)
  have hperm : (e :: st.tokens.entries.erase e).Perm st.tokens.entries :=
    (List.perm_cons_erase he).symm
  exact ⟨{ st with tokens := ⟨_, (List.perm_nodupKeys hperm).2 st.tokens.nodupKeys⟩ }, _,
    ⟨hperm, rfl, rfl⟩, rfl⟩

end ServerState

/-! ## One map operation -/

/-- What a step of the server does to the registry. -/
inductive Op where
  | read
  | touchSession (group : String) (client : EndpointId) (now : Instant)
  | insertService (group service : String) (provider : EndpointId)
  | removeSession (group : String) (client : EndpointId)
  | removeService (group service : String)

def Op.apply (st : ServerState) : Op → ServerState
  | .read => st
  | .touchSession g client now => st.update g (·.touchSession client now)
  | .insertService g svc provider => st.update g (·.insertService svc provider)
  | .removeSession g client => st.update g (·.removeSession client)
  | .removeService g svc => st.update g (·.removeService svc)

/-! ## What an operation changes -/

section Apply

variable {st : ServerState} {op : Op} {g svc : String} {client provider : EndpointId}

@[simp] theorem tokens_apply : (op.apply st).tokens = st.tokens := by
  cases op <;> rfl

theorem groups_update (f : Group → Group) (g' : String) :
    (st.update g f).groups g' = if g' = g then f (st.groups g) else st.groups g' := by
  simp only [ServerState.update, Function.update_apply]

theorem groups_update_self (f : Group → Group) : (st.update g f).groups g = f (st.groups g) := by
  rw [groups_update, if_pos rfl]

/-- The services of a group after an operation. -/
theorem services_apply (op : Op) : ((op.apply st).groups g).services =
    match op with
    | .insertService g' svc p =>
        if g = g' then (st.groups g).services.insert svc ⟨p⟩ else (st.groups g).services
    | .removeService g' svc =>
        if g = g' then (st.groups g).services.erase svc else (st.groups g).services
    | _ => (st.groups g).services := by
  cases op <;> simp only [Op.apply, groups_update] <;> split_ifs with h <;>
    first | rfl | (subst h; rfl)

/-- The sessions of a group after an operation. -/
theorem sessions_apply (op : Op) : ((op.apply st).groups g).sessions =
    match op with
    | .touchSession g' c now =>
        if g = g' then (st.groups g).sessions.insert c ⟨now⟩ else (st.groups g).sessions
    | .removeSession g' c =>
        if g = g' then (st.groups g).sessions.erase c else (st.groups g).sessions
    | _ => (st.groups g).sessions := by
  cases op <;> simp only [Op.apply, groups_update] <;> split_ifs with h <;>
    first | rfl | (subst h; rfl)

/-- A record that is there after an operation was there before, or was just inserted. -/
theorem service_of_apply {r : ServiceRecord}
    (h : ((op.apply st).groups g).services.lookup svc = some r) :
    (st.groups g).services.lookup svc = some r ∨ op = .insertService g svc r.providerId := by
  rw [services_apply] at h
  cases op with
  | insertService g' svc' p =>
    by_cases hg : g = g'
    · simp only [if_pos hg] at h
      by_cases hs : svc = svc'
      · subst hs hg
        rw [Finmap.lookup_insert] at h
        obtain rfl := Option.some.inj h
        exact .inr rfl
      · rw [Finmap.lookup_insert_of_ne _ hs] at h
        exact .inl h
    · simp only [if_neg hg] at h
      exact .inl h
  | removeService g' svc' =>
    by_cases hg : g = g'
    · simp only [if_pos hg] at h
      by_cases hs : svc = svc'
      · subst hs
        rw [Finmap.lookup_erase] at h
        cases h
      · rw [Finmap.lookup_erase_ne hs] at h
        exact .inl h
    · simp only [if_neg hg] at h
      exact .inl h
  | _ => exact .inl h

/-- A record stays, unless the operation is on its name. -/
theorem service_apply {r : ServiceRecord} (h : (st.groups g).services.lookup svc = some r)
    (hins : ∀ p, op = .insertService g svc p → p = r.providerId)
    (hrem : op ≠ .removeService g svc) :
    ((op.apply st).groups g).services.lookup svc = some r := by
  rw [services_apply]
  cases op with
  | insertService g' svc' p =>
    by_cases hg : g = g'
    · simp only [if_pos hg]
      by_cases hs : svc = svc'
      · subst hs hg
        rw [Finmap.lookup_insert, hins p rfl]
      · rw [Finmap.lookup_insert_of_ne _ hs, h]
    · simp only [if_neg hg, h]
  | removeService g' svc' =>
    by_cases hg : g = g'
    · subst hg
      have hs : svc ≠ svc' := by
        rintro rfl
        exact hrem rfl
      simp only [if_true]
      rw [Finmap.lookup_erase_ne hs, h]
    · simp only [if_neg hg, h]
  | _ => exact h

/-- A name stays registered, unless the operation removes it. -/
theorem mem_services_apply (h : svc ∈ (st.groups g).services)
    (hrem : op ≠ .removeService g svc) : svc ∈ ((op.apply st).groups g).services := by
  rw [services_apply]
  cases op with
  | insertService g' svc' p =>
    by_cases hg : g = g'
    · simp only [if_pos hg, Finmap.mem_insert]
      exact .inr h
    · simp only [if_neg hg, h]
  | removeService g' svc' =>
    by_cases hg : g = g'
    · subst hg
      have hs : svc ≠ svc' := by
        rintro rfl
        exact hrem rfl
      simp only [if_true, Finmap.mem_erase]
      exact ⟨hs, h⟩
    · simp only [if_neg hg, h]
  | _ => exact h

theorem service_insertService :
    (((Op.insertService g svc provider).apply st).groups g).services.lookup svc =
      some ⟨provider⟩ := by
  rw [services_apply]
  simp only [if_true, Finmap.lookup_insert]

/-- A session that is there after an operation was there before, or was just touched. -/
theorem session_of_apply (h : client ∈ ((op.apply st).groups g).sessions) :
    client ∈ (st.groups g).sessions ∨ ∃ now, op = .touchSession g client now := by
  rw [sessions_apply] at h
  cases op with
  | touchSession g' c now =>
    by_cases hg : g = g'
    · simp only [if_pos hg, Finmap.mem_insert] at h
      rcases h with rfl | h
      · exact .inr ⟨now, by rw [hg]⟩
      · exact .inl h
    · simp only [if_neg hg] at h
      exact .inl h
  | removeSession g' c =>
    by_cases hg : g = g'
    · simp only [if_pos hg, Finmap.mem_erase] at h
      exact .inl h.2
    · simp only [if_neg hg] at h
      exact .inl h
  | _ => exact .inl h

/-- The last heartbeat of a session is what it was, or the time of the touch. -/
theorem heartbeat_of_apply {s : Session}
    (h : ((op.apply st).groups g).sessions.lookup client = some s) :
    (st.groups g).sessions.lookup client = some s ∨
      op = .touchSession g client s.lastHeartbeat := by
  rw [sessions_apply] at h
  cases op with
  | touchSession g' c now =>
    by_cases hg : g = g'
    · simp only [if_pos hg] at h
      by_cases hc : client = c
      · subst hc hg
        rw [Finmap.lookup_insert] at h
        obtain rfl := Option.some.inj h
        exact .inr rfl
      · rw [Finmap.lookup_insert_of_ne _ hc] at h
        exact .inl h
    · simp only [if_neg hg] at h
      exact .inl h
  | removeSession g' c =>
    by_cases hg : g = g'
    · simp only [if_pos hg] at h
      by_cases hc : client = c
      · subst hc
        rw [Finmap.lookup_erase] at h
        cases h
      · rw [Finmap.lookup_erase_ne hc] at h
        exact .inl h
    · simp only [if_neg hg] at h
      exact .inl h
  | _ => exact .inl h

/-- A session stays, unless the operation removes it. -/
theorem session_apply (h : client ∈ (st.groups g).sessions)
    (hrem : op ≠ .removeSession g client) : client ∈ ((op.apply st).groups g).sessions := by
  rw [sessions_apply]
  cases op with
  | touchSession g' c now =>
    by_cases hg : g = g'
    · simp only [if_pos hg, Finmap.mem_insert]
      exact .inr h
    · simp only [if_neg hg, h]
  | removeSession g' c =>
    by_cases hg : g = g'
    · subst hg
      have hc : client ≠ c := by
        rintro rfl
        exact hrem rfl
      simp only [if_true, Finmap.mem_erase]
      exact ⟨hc, h⟩
    · simp only [if_neg hg, h]
  | _ => exact h

theorem session_removeSession :
    client ∉ (((Op.removeSession g client).apply st).groups g).sessions := by
  rw [sessions_apply]
  simp

end Apply

end MeshlyCore.Registry
