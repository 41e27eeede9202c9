import MeshlyCore.Lib.Machine
import MeshlyCore.Registry.Whole

/-!
# Is everything swept?

`sweep_dead_sessions` is to drop every session without a heartbeat since the cutoff, with its
services, and to leave the others alone. It finds the groups by their services, in the rows of
`dump_services`: a group with a service is visited, more than once if it has several, and a group
without one is not visited at all.

**Theorem (`swept_iff`).** A sweep with nothing in between always comes to its end, and then every
group is swept if and only if no group without a service had an expired session.
-/

namespace MeshlyCore.Registry

/-! ## A sweep on its own -/

/-- One operation of the sweeper, with the registry it works on. -/
def sweepMove (s : Sweeper × ServerState) (input : SweepInput) (t : Sweeper × ServerState) : Prop :=
  ∃ op, s.1.step s.2 input = some (t.1, op) ∧ t.2 = op.apply s.2

/-- The operations of one call, after its first. -/
def sweepGoesOn : Sweeper × ServerState → SweepInput → Sweeper × ServerState → Prop :=
  Machine.Guarded (fun s _ => s.1 ≠ .idle) sweepMove

/-- A call of `sweep_dead_sessions` at time `now` turns `st` into `st'`. -/
def SweepDeadSessions (now : Instant) (timeout : ℤ) (st st' : ServerState) : Prop :=
  ∃ (first : SweepInput) (inputs : List SweepInput) (t : Sweeper × ServerState),
    first.now = now ∧ first.timeout = timeout ∧ sweepMove (.idle, st) first t ∧
      Machine.Run sweepGoesOn t inputs (.idle, st')

/-- What a sweep is to do to a group. -/
structure Group.Swept (cutoff : Instant) (before after : Group) : Prop where
  expired_gone : ∀ client s, after.sessions.lookup client = some s → cutoff ≤ s.lastHeartbeat
  services_gone : ∀ client ∈ before.expired cutoff, ∀ svc,
    after.services.lookup svc ≠ some ⟨client⟩
  sessions_kept : ∀ client s, cutoff ≤ s.lastHeartbeat →
    (after.sessions.lookup client = some s ↔ before.sessions.lookup client = some s)
  services_kept : ∀ client s, cutoff ≤ s.lastHeartbeat →
    before.sessions.lookup client = some s → ∀ svc,
      (after.services.lookup svc = some ⟨client⟩ ↔ before.services.lookup svc = some ⟨client⟩)

/-! ## It comes to its end -/

/-- A sweep can go on from `s` until it is done. -/
def Finishes (s : Sweeper × ServerState) : Prop :=
  ∃ inputs st', Machine.Run sweepGoesOn s inputs (.idle, st')

/-- The input of an operation that does not look at the clock. -/
def found (dead : List EndpointId) (scanned : List String) : SweepInput :=
  ⟨0, 0, fun _ => [], dead, scanned⟩

theorem finishes_of_step {s t : Sweeper} {st : ServerState} {op : Op} (hs : s ≠ .idle)
    (dead : List EndpointId) (scanned : List String)
    (hstep : s.step st (found dead scanned) = some (t, op)) (ht : Finishes (t, op.apply st)) :
    Finishes (s, st) := by
  obtain ⟨inputs, st', hrun⟩ := ht
  exact ⟨_ :: inputs, st', .cons ⟨hs, op, hstep, rfl⟩ hrun⟩

section Finishes

variable {cutoff : Instant} {entries : List (String × String × EndpointId)} {g : String}

/-- A drop ends if what comes after it does. -/
theorem finishes_dropping {client : EndpointId} {dead : List EndpointId}
    (hrest : ∀ st, Finishes (.reaping cutoff entries g dead, st)) (st : ServerState) :
    Finishes (.dropping cutoff entries g dead client .removeSession, st) := by
  have hremove : ∀ left st,
      Finishes (.dropping cutoff entries g dead client (.remove left), st) := by
    intro left
    induction left with
    | nil =>
      intro st
      exact finishes_of_step (by simp) [] [] rfl (hrest st)
    | cons svc left ih =>
      intro st
      exact finishes_of_step (by simp) [] [] rfl (ih _)
  have hscan : ∀ st, Finishes (.dropping cutoff entries g dead client .scan, st) := by
    intro st
    -- The scan may find the services in any order.
    obtain ⟨scanned, hnd, hscanned⟩ := Finset.exists_list_nodup_eq ((st.groups g).owned client)
    have hstep : (Sweeper.dropping cutoff entries g dead client .scan).step st (found [] scanned) =
        some (.dropping cutoff entries g dead client (.remove scanned), .read) := by
      simp [Sweeper.step, Drop.step, found, hnd, hscanned]
    exact finishes_of_step (by simp) [] scanned hstep (hremove scanned st)
  exact finishes_of_step (by simp) [] [] rfl (hscan _)

theorem finishes_reaping (hrest : ∀ st, Finishes (.walking cutoff entries, st))
    (dead : List EndpointId) (st : ServerState) :
    Finishes (.reaping cutoff entries g dead, st) := by
  induction dead generalizing st with
  | nil => exact finishes_of_step (by simp) [] [] rfl (hrest st)
  | cons client dead ih => exact finishes_of_step (by simp) [] [] rfl (finishes_dropping ih st)

theorem finishes_walking (cutoff : Instant) (entries : List (String × String × EndpointId))
    (st : ServerState) : Finishes (.walking cutoff entries, st) := by
  induction entries generalizing st with
  | nil => exact finishes_of_step (by simp) [] [] rfl ⟨[], st, .nil _⟩
  | cons e entries ih =>
    obtain ⟨g, svc, p⟩ := e
    by_cases hg : g ∈ st.tokens
    · obtain ⟨dead, hnd, hdead⟩ := Finset.exists_list_nodup_eq ((st.groups g).expired cutoff)
      have hstep : (Sweeper.walking cutoff ((g, svc, p) :: entries)).step st (found dead []) =
          some (.reaping cutoff entries g dead, .read) := by
        simp [Sweeper.step, ServerState.group, found, hg, hnd, hdead]
      exact finishes_of_step (by simp) dead [] hstep (finishes_reaping ih dead st)
    · have hstep : (Sweeper.walking cutoff ((g, svc, p) :: entries)).step st (found [] []) =
          some (.walking cutoff entries, .read) := by
        simp [Sweeper.step, ServerState.group, hg]
      exact finishes_of_step (by simp) [] [] hstep (ih st)

end Finishes

/-- **A sweep always comes to its end.** -/
theorem exists_sweepDeadSessions (now : Instant) (timeout : ℤ) (st : ServerState) :
    ∃ st', SweepDeadSessions now timeout st st' := by
  have hlist : ∀ name, ∃ rows : List (Sigma fun _ : String => ServiceRecord),
      (rows : Multiset _) = (st.groups name).services.entries := fun name =>
    ⟨_, Multiset.coe_toList _⟩
  choose seen hseen using hlist
  obtain ⟨inputs, st', hrun⟩ :=
    finishes_walking (now - timeout) (st.dumpServices seen) st
  have hstep : Sweeper.idle.step st ⟨now, timeout, seen, [], []⟩ =
      some (.walking (now - timeout) (st.dumpServices seen), .read) :=
    if_pos fun name _ => hseen name
  exact ⟨st', _, inputs, (_, st), rfl, rfl, ⟨.read, hstep, rfl⟩, hrun⟩

/-! ## What it has done -/

/-- Nothing a sweep does depends on the order in which it does it. -/
theorem groups_sweepDeadSessions {now : Instant} {timeout : ℤ} {st st' : ServerState}
    (h : SweepDeadSessions now timeout st st') {g : String} (hg : g ∈ st.tokens) :
    st'.groups g = (st.groups g).sweep (now - timeout) := by
  obtain ⟨first, inputs, ⟨s, st₁⟩, rfl, rfl, ⟨op, hstep, rfl⟩, hrun⟩ := h
  have hinv : s.rest g ((op.apply st).groups g) =
      (st.groups g).sweep (first.now - first.timeout) ∧ g ∈ (op.apply st).tokens := by
    cases sweepStep_of_step hstep with
    | start hseen => exact ⟨sweep_start _ hseen hg, hg⟩
  refine (hrun.invariant (P := fun u => u.1.rest g (u.2.groups g) =
    (st.groups g).sweep (first.now - first.timeout) ∧ g ∈ u.2.tokens) ?_ hinv).1
  rintro u input v ⟨hidle, op, hop, hv⟩ ⟨hrest, hmem⟩
  rw [hv, sweep_rest hop hidle hmem, tokens_apply]
  exact ⟨hrest, hmem⟩

/-- Dropping the expired sessions is what a sweep is to do. -/
theorem swept_without (cutoff : Instant) (g : Group) :
    g.Swept cutoff (g.without (g.expired cutoff)) where
  expired_gone client s hs := by
    by_contra hlt
    have hmem : client ∈ (g.without (g.expired cutoff)).expired cutoff :=
      mem_expired.2 ⟨s, hs, lt_of_not_ge hlt⟩
    rw [Group.expired_without] at hmem
    exact absurd hmem (Finset.notMem_empty _)
  services_gone client hclient svc hsvc := by
    simp only [Group.without, Group.keep, lookup_keepEntries, Option.filter_eq_some_iff] at hsvc
    exact of_decide_eq_true hsvc.2 hclient
  sessions_kept client s hle := by
    simp only [Group.without, Group.keep, lookup_keepEntries, Option.filter_eq_some_iff]
    refine ⟨And.left, fun hs => ⟨hs, decide_eq_true fun hmem => ?_⟩⟩
    obtain ⟨s', hs', hlt⟩ := mem_expired.1 hmem
    rw [hs] at hs'
    obtain rfl := Option.some.inj hs'
    exact absurd hle (not_le_of_gt hlt)
  services_kept client s hle hs svc := by
    simp only [Group.without, Group.keep, lookup_keepEntries, Option.filter_eq_some_iff]
    refine ⟨And.left, fun hsvc => ⟨hsvc, decide_eq_true fun hmem => ?_⟩⟩
    obtain ⟨s', hs', hlt⟩ := mem_expired.1 hmem
    rw [hs] at hs'
    obtain rfl := Option.some.inj hs'
    exact absurd hle (not_le_of_gt hlt)

/-- A group that is not visited is swept only if there was nothing to sweep. -/
theorem swept_sweep_iff (cutoff : Instant) (g : Group) :
    g.Swept cutoff (g.sweep cutoff) ↔ (g.services = ∅ → g.expired cutoff = ∅) := by
  rw [Group.sweep]
  have hcard : g.services.entries.card = 0 ↔ g.services = ∅ := by
    rw [Multiset.card_eq_zero]
    exact ⟨fun h => Finmap.ext h, fun h => by rw [h]; rfl⟩
  by_cases hempty : g.services.entries.card = 0
  · rw [if_pos hempty]
    constructor
    · intro hswept _
      refine Finset.eq_empty_of_forall_notMem fun client hclient => ?_
      obtain ⟨s, hs, hlt⟩ := mem_expired.1 hclient
      exact absurd (hswept.expired_gone client s hs) (not_le_of_gt hlt)
    · intro hnone
      have hswept := swept_without cutoff g
      rwa [hnone (hcard.1 hempty), Group.without_empty] at hswept
  · rw [if_neg hempty]
    exact ⟨fun _ h => absurd (hcard.2 h) hempty, fun _ => swept_without cutoff g⟩

/-- **Everything is swept exactly when no group without a service has an expired session.** -/
theorem swept_iff (st : ServerState) (now : Instant) (timeout : ℤ) :
    (∃ st', SweepDeadSessions now timeout st st') ∧
      ∀ st', SweepDeadSessions now timeout st st' →
        ((∀ g ∈ st.tokens, (st.groups g).Swept (now - timeout) (st'.groups g)) ↔
          ∀ g ∈ st.tokens, (st.groups g).services = ∅ →
            (st.groups g).expired (now - timeout) = ∅) := by
  refine ⟨exists_sweepDeadSessions now timeout st, fun st' h => forall₂_congr fun g hg => ?_⟩
  rw [groups_sweepDeadSessions h hg]
  exact swept_sweep_iff _ _

/-- One group, in which a client has said hello at time 0 and has registered nothing. -/
def silentState : ServerState :=
  (ServerState.new [⟨"home", "t"⟩] []).update "home" (·.touchSession ⟨.replicate 1⟩ 0)

/-- The client is not heard of again, and its session stays. -/
theorem silentState_unswept : ¬∀ st', SweepDeadSessions 60 30 silentState st' →
    ∀ g ∈ silentState.tokens, (silentState.groups g).Swept (60 - 30) (st'.groups g) := by
  intro hswept
  obtain ⟨st', h⟩ := exists_sweepDeadSessions 60 30 silentState
  have hg : "home" ∈ silentState.tokens := by decide
  have hexpired : ⟨.replicate 1⟩ ∈ (silentState.groups "home").expired (60 - 30) := by decide
  have hswept := hswept st' h "home" hg
  rw [groups_sweepDeadSessions h hg, swept_sweep_iff] at hswept
  rw [hswept rfl] at hexpired
  exact absurd hexpired (Finset.notMem_empty _)

end MeshlyCore.Registry
