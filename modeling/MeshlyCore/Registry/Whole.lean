import MeshlyCore.Registry.View

/-!
# Whole drops and sweeps

`drop_session` and `sweep_dead_sessions` are many map operations, in an order nobody controls.
When nothing comes in between, only their outcome is seen, and the outcome has no order: a drop
takes away the session of a client and its services, a sweep does the same for all clients
without a heartbeat since the cutoff, in the groups that have a service at all.

`Drop.rest` and `Sweeper.rest` are what is still to be done to a group when the call is on its
way, and each operation of the call keeps the outcome (`drop_rest`, `sweep_rest`).
-/

namespace MeshlyCore.Registry

/-! ## Keeping part of a group -/

/-- The entries of a map that pass a test. -/
def keepEntries {α : Type} {β : α → Type} (p : ∀ a, β a → Bool) (m : Finmap β) : Finmap β where
  entries := m.entries.filter fun e => p e.1 e.2
  nodupKeys := by
    obtain ⟨entries, hnd⟩ := m
    induction entries using Quotient.inductionOn with
    | h l => exact List.NodupKeys.sublist List.filter_sublist hnd

theorem lookup_keepEntries {α : Type} [DecidableEq α] {β : α → Type} (p : ∀ a, β a → Bool)
    (m : Finmap β) (a : α) : (keepEntries p m).lookup a = (m.lookup a).filter (p a) := by
  ext b
  rw [Option.filter_eq_some_iff, Finmap.lookup_eq_some_iff, Finmap.lookup_eq_some_iff]
  simp [keepEntries, Multiset.mem_filter]

@[simp] theorem filter_true {α : Type} (o : Option α) : (o.filter fun _ => true) = o := by
  cases o <;> rfl

namespace Group

/-- The sessions that pass the one test, and the services that pass the other. -/
def keep (p : EndpointId → Bool) (q : String → EndpointId → Bool) (g : Group) : Group where
  sessions := keepEntries (fun client _ => p client) g.sessions
  services := keepEntries (fun svc r => q svc r.providerId) g.services

theorem ext_lookup {g g' : Group} (hsessions : ∀ c, g.sessions.lookup c = g'.sessions.lookup c)
    (hservices : ∀ svc, g.services.lookup svc = g'.services.lookup svc) : g = g' := by
  cases g
  cases g'
  congr 1
  · exact Finmap.ext_lookup hsessions
  · exact Finmap.ext_lookup hservices

theorem keep_keep (p p' : EndpointId → Bool) (q q' : String → EndpointId → Bool) (g : Group) :
    (g.keep p q).keep p' q' =
      g.keep (fun c => p c && p' c) (fun svc c => q svc c && q' svc c) := by
  refine ext_lookup (fun c => ?_) (fun svc => ?_) <;>
    simp only [keep, lookup_keepEntries, Option.filter_filter]

/-- Tests that agree on the entries of a group keep the same of it. -/
theorem keep_congr {p p' : EndpointId → Bool} {q q' : String → EndpointId → Bool} {g : Group}
    (hp : ∀ c s, g.sessions.lookup c = some s → p c = p' c)
    (hq : ∀ svc c, g.services.lookup svc = some ⟨c⟩ → q svc c = q' svc c) :
    g.keep p q = g.keep p' q' := by
  refine ext_lookup (fun c => ?_) (fun svc => ?_)
  · simp only [keep, lookup_keepEntries]
    cases hs : g.sessions.lookup c with
    | none => rfl
    | some s => simp only [Option.filter_some, hp c s hs]
  · simp only [keep, lookup_keepEntries]
    cases hr : g.services.lookup svc with
    | none => rfl
    | some r => simp only [Option.filter_some, hq svc r.providerId hr]

theorem keep_all (g : Group) : g.keep (fun _ => true) (fun _ _ => true) = g :=
  ext_lookup (fun c => by simp [keep, lookup_keepEntries])
    (fun svc => by simp [keep, lookup_keepEntries])

theorem removeSession_eq_keep (client : EndpointId) (g : Group) :
    g.removeSession client = g.keep (fun c => c ≠ client) (fun _ _ => true) := by
  refine ext_lookup (fun c => ?_) (fun svc => ?_)
  · simp only [removeSession, keep, lookup_keepEntries]
    by_cases hc : c = client
    · subst hc
      simp
    · rw [Finmap.lookup_erase_ne hc]
      simp [hc]
  · simp [removeSession, keep, lookup_keepEntries]

theorem removeService_eq_keep (svc : String) (g : Group) :
    g.removeService svc = g.keep (fun _ => true) (fun s _ => s ≠ svc) := by
  refine ext_lookup (fun c => ?_) (fun s => ?_)
  · simp [removeService, keep, lookup_keepEntries]
  · simp only [removeService, keep, lookup_keepEntries]
    by_cases hs : s = svc
    · subst hs
      simp
    · rw [Finmap.lookup_erase_ne hs]
      simp [hs]

/-- The group without some clients and their services. -/
def without (clients : Finset EndpointId) (g : Group) : Group :=
  g.keep (fun c => c ∉ clients) (fun _ c => c ∉ clients)

/-- A sweep of the group, in one go: a group without services is not visited. -/
def sweep (cutoff : Instant) (g : Group) : Group :=
  if g.services.entries.card = 0 then g else g.without (g.expired cutoff)

theorem without_empty (g : Group) : g.without ∅ = g := by
  simpa [without] using keep_all g

/-- After a sweep nobody is expired. -/
theorem expired_without (cutoff : Instant) (g : Group) :
    (g.without (g.expired cutoff)).expired cutoff = ∅ := by
  refine Finset.eq_empty_of_forall_notMem fun client hclient => ?_
  obtain ⟨s, hs, hlt⟩ := mem_expired.1 hclient
  simp only [without, keep, lookup_keepEntries, Option.filter_eq_some_iff] at hs
  exact (of_decide_eq_true hs.2) (mem_expired.2 ⟨s, hs.1, hlt⟩)

end Group

/-! ## Drops -/

/-- What `drop_session(client)` has still to do to its group. -/
def Drop.rest (client : EndpointId) : Drop → Group → Group
  | .removeSession, g => g.without {client}
  | .scan, g => g.keep (fun _ => true) (fun _ c => c ≠ client)
  | .remove left, g => g.keep (fun _ => true) (fun svc _ => svc ∉ left)

/-- An operation of a drop does part of the rest. -/
theorem drop_rest {g : String} {client : EndpointId} {st : ServerState} {scanned : List String}
    {d : Drop} {d' : Option Drop} {op : Op} (h : d.step g client st scanned = some (d', op)) :
    d'.elim id (Drop.rest client) ((op.apply st).groups g) = d.rest client (st.groups g) := by
  rcases drop_cases h with ⟨rfl, rfl, rfl⟩ | ⟨rfl, rfl, rfl, hscan⟩ | ⟨svc, left, rfl, rfl, rfl⟩ |
      ⟨rfl, rfl, rfl⟩
  · simp only [Option.elim_some, Drop.rest, Op.apply, groups_update_self]
    rw [Group.removeSession_eq_keep, Group.keep_keep]
    simp [Group.without]
  · simp only [Option.elim_some, Drop.rest, Op.apply]
    refine Group.keep_congr (fun _ _ _ => rfl) fun svc c hc => ?_
    have hmem : svc ∈ scanned ↔ c = client := by
      rw [hscan svc, hc]
      simp
    simp [hmem]
  · simp only [Option.elim_some, Drop.rest, Op.apply, groups_update_self]
    rw [Group.removeService_eq_keep, Group.keep_keep]
    simp
  · simpa [Drop.rest, Op.apply] using (Group.keep_all (st.groups g)).symm

/-! ## The sweeper -/

/-- What a sweep has still to do to a group: it visits it again for each row that is left. -/
def Sweeper.rest (g : String) : Sweeper → Group → Group
  | .idle, group => group
  | .walking cutoff entries, group => walkRest cutoff (rowsOf g entries) group
  | .reaping cutoff entries g' dead, group =>
      walkRest cutoff (rowsOf g entries) (if g' = g then group.without dead.toFinset else group)
  | .dropping cutoff entries g' dead client d, group =>
      walkRest cutoff (rowsOf g entries)
        (if g' = g then (d.rest client group).without dead.toFinset else group)
where
  walkRest (cutoff : Instant) (rows : ℕ) (group : Group) : Group :=
    if rows = 0 then group else group.without (group.expired cutoff)

namespace Group

/-- Clients are dropped one by one. -/
theorem without_insert (client : EndpointId) (clients : Finset EndpointId) (g : Group) :
    (g.without {client}).without clients = g.without (insert client clients) := by
  rw [without, without, keep_keep]
  refine keep_congr (fun c _ _ => ?_) fun _ c _ => ?_ <;> simp

/-- A group that was just swept stays as it is. -/
theorem walkRest_without (cutoff : Instant) (rows : ℕ) (g : Group) :
    Sweeper.rest.walkRest cutoff rows (g.without (g.expired cutoff)) =
      g.without (g.expired cutoff) := by
  unfold Sweeper.rest.walkRest
  rw [expired_without, without_empty, ite_self]

end Group

/-- The start of a sweep: the rest is all of it. -/
theorem sweep_start {st : ServerState} {seen : Seen} {g : String} (cutoff : Instant)
    (hseen : st.Sees seen) (hg : g ∈ st.tokens) :
    (Sweeper.walking cutoff (st.dumpServices seen)).rest g (st.groups g) =
      (st.groups g).sweep cutoff := by
  rw [Sweeper.rest, rowsOf_dumpServices hseen hg]
  rfl

/-- An operation of a sweep does part of the rest. -/
theorem sweep_rest {st : ServerState} {input : SweepInput} {s s' : Sweeper} {op : Op} {g : String}
    (h : s.step st input = some (s', op)) (hs : s ≠ .idle) (hg : g ∈ st.tokens) :
    s'.rest g ((op.apply st).groups g) = s.rest g (st.groups g) := by
  cases sweepStep_of_step h with
  | start => exact absurd rfl hs
  | finish => rfl
  | @skip cutoff g' row entries hg' =>
    have hgg : g' ≠ g := fun heq => hg' (heq ▸ hg)
    simp [Sweeper.rest, rowsOf_cons, hgg, Op.apply]
  | @visit cutoff g' row entries _ _ hdead =>
    by_cases hgg : g' = g
    · subst hgg
      have hrows : rowsOf g' ((g', row) :: entries) ≠ 0 := by simp [rowsOf_cons]
      simp only [Sweeper.rest, if_true, hdead, Op.apply]
      rw [Group.walkRest_without, Sweeper.rest.walkRest, if_neg hrows]
    · simp [Sweeper.rest, rowsOf_cons, hgg, Op.apply]
  | leave => simp [Sweeper.rest, Group.without_empty, Op.apply]
  | reap => simp [Sweeper.rest, Drop.rest, Group.without_insert, Op.apply]
  | @drop cutoff entries g' dead client d d' op hd =>
    by_cases hgg : g' = g
    · subst hgg
      simp only [Sweeper.rest, if_true, ← drop_rest hd, Option.elim_some]
    · simp only [Sweeper.rest, if_neg hgg,
        groups_apply_of_ne fun hg' => hgg ((drop_view hd).2 g hg').symm]
  | @dropped cutoff entries g' dead client d op hd =>
    by_cases hgg : g' = g
    · subst hgg
      simp only [Sweeper.rest, if_true, ← drop_rest hd, Option.elim_none, id]
    · simp only [Sweeper.rest, if_neg hgg,
        groups_apply_of_ne fun hg' => hgg ((drop_view hd).2 g hg').symm]

end MeshlyCore.Registry
