import MeshlyCore.Registry.State

/-!
# Dropping sessions

`Group::drop_session` is not one operation: it removes the session, scans the services of the
client, and then removes these one by one, while other sessions run. `Drop` is where such a call
stands. The two callers are the end of a control connection and `sweep_dead_sessions`.

What a scan finds is a list in an order nobody controls, so a step takes the list as an
argument and is only possible when it is one the scan can give.
-/

namespace MeshlyCore.Registry

/-! ## `drop_session` -/

inductive Drop where
  | removeSession
  | scan
  | remove (left : List String)
  deriving DecidableEq

/-- The next operation of `drop_session(client)` in group `g`; `none` for what is left when the
call returns. -/
def Drop.step (g : String) (client : EndpointId) (st : ServerState) (scanned : List String) :
    Drop → Option (Option Drop × Op)
  | .removeSession => some (some .scan, .removeSession g client)
  | .scan =>
      if scanned.Nodup ∧ scanned.toFinset = (st.groups g).owned client then
        some (some (.remove scanned), .read)
      else none
  | .remove (svc :: left) => some (some (.remove left), .removeService g svc)
  | .remove [] => some (none, .read)

/-- The call is past its first operation and will come to `svc`. -/
def Drop.Pending (svc : String) : Drop → Prop
  | .removeSession => False
  | .scan => True
  | .remove left => svc ∈ left

/-! ## `sweep_dead_sessions` -/

/-- Where the sweeper stands in its walk over `dump_services`. -/
inductive Sweeper where
  | idle
  | walking (cutoff : Instant) (entries : List (String × String × EndpointId))
  | reaping (cutoff : Instant) (entries : List (String × String × EndpointId)) (g : String)
      (dead : List EndpointId)
  | dropping (cutoff : Instant) (entries : List (String × String × EndpointId)) (g : String)
      (dead : List EndpointId) (client : EndpointId) (d : Drop)
  deriving DecidableEq

/-- What a step of the sweeper is given: the time, and what the scans find. -/
structure SweepInput where
  now : Instant
  timeout : ℤ
  seen : Seen
  dead : List EndpointId
  scanned : List String

/-- The next operation of the sweeper. -/
def Sweeper.step (st : ServerState) (input : SweepInput) : Sweeper → Option (Sweeper × Op)
  | .idle =>
      if st.Sees input.seen then
        some (.walking (input.now - input.timeout) (st.dumpServices input.seen), .read)
      else none
  | .walking _ [] => some (.idle, .read)
  | .walking cutoff ((g, _, _) :: entries) =>
      match st.group g with
      | none => some (.walking cutoff entries, .read)
      | some group =>
          if input.dead.Nodup ∧ input.dead.toFinset = group.expired cutoff then
            some (.reaping cutoff entries g input.dead, .read)
          else none
  | .reaping cutoff entries _ [] => some (.walking cutoff entries, .read)
  | .reaping cutoff entries g (client :: dead) =>
      some (.dropping cutoff entries g dead client .removeSession, .read)
  | .dropping cutoff entries g dead client d =>
      (d.step g client st input.scanned).map fun (d', op) =>
        (match d' with
          | some d' => .dropping cutoff entries g dead client d'
          | none => .reaping cutoff entries g dead, op)

/-- The drop the sweeper is in the middle of. -/
def Sweeper.drop? : Sweeper → Option (String × EndpointId × Drop)
  | .dropping _ _ g _ client d => some (g, client, d)
  | _ => none

/-- The sessions the sweeper has found expired and still has to remove: the cutoff it compared
them with, their group and their clients. -/
def Sweeper.marked : Sweeper → Option (Instant × String × List EndpointId)
  | .reaping cutoff _ g dead => some (cutoff, g, dead)
  | .dropping cutoff _ g dead client .removeSession => some (cutoff, g, client :: dead)
  | .dropping cutoff _ g dead _ _ => some (cutoff, g, dead)
  | _ => none

/-- The cutoff of the sweep under way. -/
def Sweeper.cutoff? : Sweeper → Option Instant
  | .idle => none
  | .walking cutoff _ => some cutoff
  | .reaping cutoff _ _ _ => some cutoff
  | .dropping cutoff _ _ _ _ _ => some cutoff

/-! ## What a step does -/

theorem mem_owned {g : Group} {client : EndpointId} {svc : String} :
    svc ∈ g.owned client ↔ g.services.lookup svc = some ⟨client⟩ := by
  unfold Group.owned
  rw [Finset.mem_filter, Finmap.mem_keys]
  exact ⟨And.right, fun h => ⟨Finmap.mem_of_lookup_eq_some h, h⟩⟩

theorem mem_expired {g : Group} {cutoff : Instant} {client : EndpointId} :
    client ∈ g.expired cutoff ↔
      ∃ s, g.sessions.lookup client = some s ∧ s.lastHeartbeat < cutoff := by
  unfold Group.expired
  rw [Finset.mem_filter, Finmap.mem_keys]
  exact ⟨And.right, fun h => ⟨Finmap.mem_of_lookup_eq_some h.choose_spec.1, h⟩⟩

theorem drop_cases {g : String} {client : EndpointId} {st : ServerState} {scanned : List String}
    {d : Drop} {d' : Option Drop} {op : Op} (h : d.step g client st scanned = some (d', op)) :
    (d = .removeSession ∧ d' = some .scan ∧ op = .removeSession g client) ∨
    (d = .scan ∧ d' = some (.remove scanned) ∧ op = .read ∧
      ∀ svc, svc ∈ scanned ↔ (st.groups g).services.lookup svc = some ⟨client⟩) ∨
    (∃ svc left, d = .remove (svc :: left) ∧ d' = some (.remove left) ∧
      op = .removeService g svc) ∨
    (d = .remove [] ∧ d' = none ∧ op = .read) := by
  cases d with
  | removeSession =>
    obtain ⟨rfl, rfl⟩ := Prod.mk.inj (Option.some.inj h)
    exact .inl ⟨rfl, rfl, rfl⟩
  | scan =>
    simp only [Drop.step] at h
    split at h
    · rename_i hscan
      obtain ⟨rfl, rfl⟩ := Prod.mk.inj (Option.some.inj h)
      refine .inr (.inl ⟨rfl, rfl, rfl, fun svc => ?_⟩)
      rw [← mem_owned, ← hscan.2, List.mem_toFinset]
    · cases h
  | remove left =>
    cases left with
    | nil =>
      obtain ⟨rfl, rfl⟩ := Prod.mk.inj (Option.some.inj h)
      exact .inr (.inr (.inr ⟨rfl, rfl, rfl⟩))
    | cons svc left =>
      obtain ⟨rfl, rfl⟩ := Prod.mk.inj (Option.some.inj h)
      exact .inr (.inr (.inl ⟨svc, left, rfl, rfl, rfl⟩))

/-- A drop adds nothing. -/
theorem drop_op {g : String} {client : EndpointId} {st : ServerState} {scanned : List String}
    {d : Drop} {d' : Option Drop} {op : Op} (h : d.step g client st scanned = some (d', op)) :
    (∀ g' c now, op ≠ .touchSession g' c now) ∧ ∀ g' svc p, op ≠ .insertService g' svc p := by
  rcases drop_cases h with ⟨-, -, rfl⟩ | ⟨-, -, rfl, -⟩ | ⟨svc, left, -, -, rfl⟩ | ⟨-, -, rfl⟩ <;>
    simp

/-- What a step of the sweeper can do. -/
inductive SweepStep (st : ServerState) (input : SweepInput) : Sweeper → Sweeper → Op → Prop
  | start (hseen : st.Sees input.seen) : SweepStep st input .idle
      (.walking (input.now - input.timeout) (st.dumpServices input.seen)) .read
  | finish (cutoff : Instant) : SweepStep st input (.walking cutoff []) .idle .read
  /-- The group of the row is not known. -/
  | skip (cutoff : Instant) {g : String} (row : String × EndpointId)
      (entries : List (String × String × EndpointId)) (hg : g ∉ st.tokens) :
      SweepStep st input (.walking cutoff ((g, row) :: entries)) (.walking cutoff entries) .read
  | visit (cutoff : Instant) {g : String} (row : String × EndpointId)
      (entries : List (String × String × EndpointId)) (hg : g ∈ st.tokens)
      (hnd : input.dead.Nodup) (hdead : input.dead.toFinset = (st.groups g).expired cutoff) :
      SweepStep st input (.walking cutoff ((g, row) :: entries))
        (.reaping cutoff entries g input.dead) .read
  | leave (cutoff : Instant) (entries : List (String × String × EndpointId)) (g : String) :
      SweepStep st input (.reaping cutoff entries g []) (.walking cutoff entries) .read
  | reap (cutoff : Instant) (entries : List (String × String × EndpointId)) (g : String)
      (client : EndpointId) (dead : List EndpointId) :
      SweepStep st input (.reaping cutoff entries g (client :: dead))
        (.dropping cutoff entries g dead client .removeSession) .read
  | drop (cutoff : Instant) (entries : List (String × String × EndpointId)) {g : String}
      (dead : List EndpointId) {client : EndpointId} {d d' : Drop} {op : Op}
      (hd : d.step g client st input.scanned = some (some d', op)) :
      SweepStep st input (.dropping cutoff entries g dead client d)
        (.dropping cutoff entries g dead client d') op
  | dropped (cutoff : Instant) (entries : List (String × String × EndpointId)) {g : String}
      (dead : List EndpointId) {client : EndpointId} {d : Drop} {op : Op}
      (hd : d.step g client st input.scanned = some (none, op)) :
      SweepStep st input (.dropping cutoff entries g dead client d)
        (.reaping cutoff entries g dead) op

section Sweeper

variable {st : ServerState} {input : SweepInput} {s s' : Sweeper} {op : Op}

theorem sweepStep_of_step (h : s.step st input = some (s', op)) : SweepStep st input s s' op := by
  cases s with
  | idle =>
    simp only [Sweeper.step] at h
    split_ifs at h with hseen
    obtain ⟨rfl, rfl⟩ := Prod.mk.inj (Option.some.inj h)
    exact .start hseen
  | walking cutoff entries =>
    cases entries with
    | nil =>
      obtain ⟨rfl, rfl⟩ := Prod.mk.inj (Option.some.inj h)
      exact .finish cutoff
    | cons e entries =>
      obtain ⟨g, svc, p⟩ := e
      simp only [Sweeper.step, ServerState.group] at h
      split_ifs at h with hg
      · simp only at h
        split_ifs at h with hdead
        obtain ⟨rfl, rfl⟩ := Prod.mk.inj (Option.some.inj h)
        exact .visit cutoff (svc, p) entries hg hdead.1 hdead.2
      · obtain ⟨rfl, rfl⟩ := Prod.mk.inj (Option.some.inj h)
        exact .skip cutoff (svc, p) entries hg
  | reaping cutoff entries g dead =>
    cases dead with
    | nil =>
      obtain ⟨rfl, rfl⟩ := Prod.mk.inj (Option.some.inj h)
      exact .leave cutoff entries g
    | cons client dead =>
      obtain ⟨rfl, rfl⟩ := Prod.mk.inj (Option.some.inj h)
      exact .reap cutoff entries g client dead
  | dropping cutoff entries g dead client d =>
    obtain ⟨⟨d', op'⟩, hd, heq⟩ := Option.map_eq_some_iff.1 h
    obtain ⟨rfl, rfl⟩ := Prod.mk.inj heq
    cases d' with
    | some d' => exact .drop cutoff entries dead hd
    | none => exact .dropped cutoff entries dead hd

/-- A sweeper step moves a drop by one operation, or only reads. -/
theorem sweeper_cases (h : s.step st input = some (s', op)) :
    (∃ g client d d', s.drop? = some (g, client, d) ∧
      d.step g client st input.scanned = some (d', op) ∧
      s'.drop? = d'.map fun d' => (g, client, d')) ∨
    (op = .read ∧ s.drop? = none ∧ ∀ g client d, s'.drop? = some (g, client, d) →
      d = .removeSession) := by
  cases sweepStep_of_step h with
  | drop _ _ _ hd => exact .inl ⟨_, _, _, _, rfl, hd, rfl⟩
  | dropped _ _ _ hd => exact .inl ⟨_, _, _, _, rfl, hd, rfl⟩
  | reap =>
    refine .inr ⟨rfl, rfl, fun g c d hd => ?_⟩
    simp only [Sweeper.drop?, Option.some.injEq, Prod.mk.injEq] at hd
    exact hd.2.2.symm
  | _ => exact .inr ⟨rfl, rfl, by simp [Sweeper.drop?]⟩

/-- What the sweeper has marked it has just found expired, or had marked before. -/
theorem marked_step (h : s.step st input = some (s', op)) {cutoff : Instant} {g : String}
    {clients : List EndpointId} (hm : s'.marked = some (cutoff, g, clients)) :
    (∃ old, s.marked = some (cutoff, g, old) ∧ clients ⊆ old) ∨
      (op = .read ∧ ∀ client ∈ clients, client ∈ (st.groups g).expired cutoff) := by
  -- In a drop, the client it is about is marked only until its session is removed.
  have hdropping : ∀ {cutoff' entries g' dead client} {d : Drop},
      (cutoff', g', dead) = (cutoff, g, clients) →
      ∃ old, (Sweeper.dropping cutoff' entries g' dead client d).marked =
        some (cutoff, g, old) ∧ clients ⊆ old := by
    intro cutoff' entries g' dead client d heq
    obtain ⟨rfl, rfl, rfl⟩ : cutoff' = cutoff ∧ g' = g ∧ dead = clients := by simpa using heq
    cases d with
    | removeSession => exact ⟨client :: dead, rfl, List.subset_cons_self _ _⟩
    | scan => exact ⟨dead, rfl, List.Subset.refl _⟩
    | remove left => exact ⟨dead, rfl, List.Subset.refl _⟩
  cases sweepStep_of_step h with
  | start => cases hm
  | finish => cases hm
  | skip => cases hm
  | visit cutoff' row entries hg hnd hdead =>
    obtain ⟨rfl, rfl, rfl⟩ : cutoff' = cutoff ∧ _ = g ∧ input.dead = clients := by
      simpa [Sweeper.marked] using hm
    refine .inr ⟨rfl, fun client hc => ?_⟩
    rw [← hdead, List.mem_toFinset]
    exact hc
  | leave => cases hm
  | reap => exact .inl ⟨clients, hm, List.Subset.refl _⟩
  | drop cutoff' entries dead hd =>
    refine .inl (hdropping (Option.some.inj ?_))
    rcases drop_cases hd with ⟨-, he, -⟩ | ⟨-, he, -⟩ | ⟨_, _, -, he, -⟩ | ⟨-, he, -⟩
    · cases he
      exact hm
    · cases he
      exact hm
    · cases he
      exact hm
    · cases he
  | dropped => exact .inl (hdropping (Option.some.inj hm))

end Sweeper

theorem dropping_of_drop? {s : Sweeper} {g : String} {client : EndpointId} {d : Drop}
    (h : s.drop? = some (g, client, d)) :
    ∃ cutoff entries dead, s = .dropping cutoff entries g dead client d := by
  cases s with
  | dropping cutoff entries g' dead client' d' =>
    obtain ⟨rfl, rfl, rfl⟩ : g' = g ∧ client' = client ∧ d' = d := by
      simpa [Sweeper.drop?] using h
    exact ⟨cutoff, entries, dead, rfl⟩
  | _ => cases h

theorem cutoff?_of_marked {s : Sweeper} {cutoff : Instant} {g : String}
    {clients : List EndpointId} (h : s.marked = some (cutoff, g, clients)) :
    s.cutoff? = some cutoff := by
  cases s with
  | idle => cases h
  | walking => cases h
  | reaping cutoff' entries g' dead =>
    obtain ⟨rfl, -⟩ := Prod.mk.inj (Option.some.inj h)
    rfl
  | dropping cutoff' entries g' dead client d =>
    cases d <;> obtain ⟨rfl, -⟩ := Prod.mk.inj (Option.some.inj h) <;> rfl

/-- A sweep keeps the cutoff it started with. -/
theorem cutoff?_step {st : ServerState} {input : SweepInput} {s s' : Sweeper} {op : Op}
    (h : s.step st input = some (s', op)) {cutoff : Instant} (hc : s'.cutoff? = some cutoff) :
    s.cutoff? = some cutoff ∨ (s = .idle ∧ cutoff = input.now - input.timeout) := by
  cases sweepStep_of_step h with
  | start => exact .inr ⟨rfl, (Option.some.inj hc).symm⟩
  | finish => cases hc
  | _ => exact .inl hc

end MeshlyCore.Registry
