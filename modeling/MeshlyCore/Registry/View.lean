import MeshlyCore.Registry.Sweep

/-!
# The registry as one group sees it

What a step does to the maps of a group, and where a drop and the sweeper stand as far as the
group is concerned. The order in which a scan saw a map is forgotten, and so are the rows of
other groups in the list the sweeper walks: what is left of it is how many rows of this group
are still to come.
-/

namespace MeshlyCore.Registry

/-- The group an operation writes to. -/
def Op.group? : Op → Option String
  | .read => none
  | .touchSession g _ _ => some g
  | .insertService g _ _ => some g
  | .removeSession g _ => some g
  | .removeService g _ => some g

theorem groups_apply_of_ne {st : ServerState} {op : Op} {g : String} (h : op.group? ≠ some g) :
    (op.apply st).groups g = st.groups g := by
  cases op with
  | read => rfl
  | _ =>
    have hne : g ≠ _ := fun heq => h (congrArg some heq.symm)
    exact (groups_update _ g).trans (if_neg hne)

/-! ## Drops -/

inductive DropView where
  | removeSession
  | scan
  | remove (left : Multiset String)

def Drop.view : Drop → DropView
  | .removeSession => .removeSession
  | .scan => .scan
  | .remove left => .remove left

/-- The service that is removed next. -/
def Drop.target : Drop → Option String
  | .remove (svc :: _) => some svc
  | _ => none

/-- The next operation of `drop_session(client)` on the maps of the group; `target` is the service
that is removed, if it comes to that. -/
def DropView.next (client : EndpointId) (target : Option String) (group : Group) :
    DropView → Option DropView × Group
  | .removeSession => (some .scan, group.removeSession client)
  | .scan => (some (.remove (group.owned client).val), group)
  | .remove left =>
      match target with
      | some svc => (some (.remove (left.erase svc)), group.removeService svc)
      | none => (none, group)

theorem coe_eq_val {α : Type*} [DecidableEq α] {l : List α} {s : Finset α} (hnd : l.Nodup)
    (h : l.toFinset = s) : (l : Multiset α) = s.val := by
  rw [← h, List.toFinset_val, hnd.dedup]

/-- A drop reads and writes the maps of its group only. -/
theorem drop_view {g : String} {client : EndpointId} {st : ServerState} {scanned : List String}
    {d : Drop} {d' : Option Drop} {op : Op} (h : d.step g client st scanned = some (d', op)) :
    d.view.next client d.target (st.groups g) = (d'.map Drop.view, (op.apply st).groups g) ∧
      ∀ g', op.group? = some g' → g' = g := by
  cases d with
  | removeSession =>
    obtain ⟨rfl, rfl⟩ := Prod.mk.inj (Option.some.inj h)
    refine ⟨Prod.ext rfl ?_, by simp [Op.group?, eq_comm]⟩
    show (st.groups g).removeSession client = (st.update g (·.removeSession client)).groups g
    rw [groups_update_self]
  | scan =>
    simp only [Drop.step] at h
    split_ifs at h with hscan
    obtain ⟨rfl, rfl⟩ := Prod.mk.inj (Option.some.inj h)
    refine ⟨Prod.ext ?_ rfl, by simp [Op.group?]⟩
    show some (DropView.remove _) = some (DropView.remove _)
    rw [coe_eq_val hscan.1 hscan.2]
  | remove left =>
    cases left with
    | nil =>
      obtain ⟨rfl, rfl⟩ := Prod.mk.inj (Option.some.inj h)
      exact ⟨rfl, by simp [Op.group?]⟩
    | cons svc left =>
      obtain ⟨rfl, rfl⟩ := Prod.mk.inj (Option.some.inj h)
      refine ⟨Prod.ext ?_ ?_, by simp [Op.group?, eq_comm]⟩
      · show some (DropView.remove (Multiset.erase ↑(svc :: left) svc)) = some (.remove ↑left)
        rw [Multiset.coe_erase, List.erase_cons_head]
      · show (st.groups g).removeService svc = (st.update g (·.removeService svc)).groups g
        rw [groups_update_self]

/-! ## The sweeper -/

inductive SweepView where
  /-- No row of the group is to come in this sweep. -/
  | away
  | walking (cutoff : Instant) (rows : ℕ)
  | reaping (cutoff : Instant) (rows : ℕ) (dead : Multiset EndpointId)
  | dropping (cutoff : Instant) (rows : ℕ) (dead : Multiset EndpointId) (client : EndpointId)
      (d : DropView)

def SweepView.walk (cutoff : Instant) (rows : ℕ) : SweepView :=
  if rows = 0 then .away else .walking cutoff rows

/-- How many rows of a group are in the list. -/
def rowsOf (g : String) (entries : List (String × String × EndpointId)) : ℕ :=
  entries.countP (·.1 = g)

def Sweeper.view (g : String) : Sweeper → SweepView
  | .idle => .away
  | .walking cutoff entries => .walk cutoff (rowsOf g entries)
  | .reaping cutoff entries g' dead =>
      if g' = g then .reaping cutoff (rowsOf g entries) dead else .walk cutoff (rowsOf g entries)
  | .dropping cutoff entries g' dead client d =>
      if g' = g then .dropping cutoff (rowsOf g entries) dead client d.view
      else .walk cutoff (rowsOf g entries)

/-- What a step of the sweeper is for a group: the start of a sweep, or a step on one of its own
rows. A row of another group is nothing. -/
inductive SweepLabel where
  | start (now : Instant) (timeout : ℤ)
  | visit
  | reap (client : Option EndpointId)
  | drop (target : Option String)

def Sweeper.label (g : String) (input : SweepInput) : Sweeper → Option SweepLabel
  | .idle => some (.start input.now input.timeout)
  | .walking _ [] => none
  | .walking _ (e :: _) => if e.1 = g then some .visit else none
  | .reaping _ _ g' dead => if g' = g then some (.reap dead.head?) else none
  | .dropping _ _ g' _ _ d => if g' = g then some (.drop d.target) else none

/-- The next operation of the sweeper on the maps of the group. -/
def SweepView.next (group : Group) : SweepView → SweepLabel → SweepView × Group
  | _, .start now timeout => (.walk (now - timeout) group.services.entries.card, group)
  | .walking cutoff rows, .visit =>
      (.reaping cutoff (rows - 1) (group.expired cutoff).val, group)
  | .reaping cutoff rows _, .reap none => (.walk cutoff rows, group)
  | .reaping cutoff rows dead, .reap (some client) =>
      (.dropping cutoff rows (dead.erase client) client .removeSession, group)
  | .dropping cutoff rows dead client d, .drop target =>
      match d.next client target group with
      | (some d', group') => (.dropping cutoff rows dead client d', group')
      | (none, group') => (.reaping cutoff rows dead, group')
  | v, _ => (v, group)

theorem rowsOf_cons (g : String) (e : String × String × EndpointId)
    (entries : List (String × String × EndpointId)) :
    rowsOf g (e :: entries) = rowsOf g entries + if e.1 = g then 1 else 0 := by
  simp [rowsOf, List.countP_cons]

/-- The list the sweeper walks has a row for every service of the group. -/
theorem rowsOf_dumpServices {st : ServerState} {seen : Seen} {g : String} (hseen : st.Sees seen)
    (hg : g ∈ st.tokens) :
    rowsOf g (st.dumpServices seen) = (st.groups g).services.entries.card := by
  have hmem : g ∈ st.tokens.keys := AList.mem_keys.1 hg
  have hcount : ∀ names : List String, names.Nodup →
      rowsOf g (names.flatMap fun name => (seen name).map fun e => (name, e.1, e.2.providerId)) =
        if g ∈ names then (seen g).length else 0 := by
    intro names hnd
    induction names with
    | nil => rfl
    | cons name names ih =>
      obtain ⟨hnot, hnd⟩ := List.nodup_cons.1 hnd
      rw [List.flatMap_cons, rowsOf, List.countP_append, ← rowsOf, ← rowsOf, ih hnd]
      by_cases hname : name = g
      · subst hname
        simp [rowsOf, hnot, List.countP_map, Function.comp_def]
      · have hne : g ≠ name := fun h => hname h.symm
        simp [rowsOf, List.countP_map, Function.comp_def, hname, hne]
  rw [ServerState.dumpServices, hcount _ st.tokens.keys_nodup, if_pos hmem, ← hseen g hmem,
    Multiset.coe_card]

/-- A step of the sweeper is, for a group, what its label says. -/
theorem sweep_view {st : ServerState} {input : SweepInput} {s s' : Sweeper} {op : Op}
    {g : String} (h : s.step st input = some (s', op)) (hg : g ∈ st.tokens) :
    (s.label g input).elim (s.view g, st.groups g) ((s.view g).next (st.groups g)) =
      (s'.view g, (op.apply st).groups g) := by
  -- The row of another group is nothing, whatever comes of it.
  have hother : ∀ cutoff g' (row : String × EndpointId) entries, g' ≠ g →
      (Sweeper.walking cutoff ((g', row) :: entries)).label g input = none ∧
        (Sweeper.walking cutoff ((g', row) :: entries)).view g =
          .walk cutoff (rowsOf g entries) := by
    intro cutoff g' row entries hgg
    exact ⟨by simp [Sweeper.label, hgg], by simp [Sweeper.view, rowsOf_cons, hgg]⟩
  cases sweepStep_of_step h with
  | start hseen =>
    show (SweepView.walk _ _, _) = (SweepView.walk _ _, _)
    rw [rowsOf_dumpServices hseen hg]
    rfl
  | finish => rfl
  | @skip cutoff g' row entries hg' =>
    obtain ⟨hlabel, hview⟩ := hother cutoff g' row entries fun heq => hg' (heq ▸ hg)
    rw [hlabel, hview]
    rfl
  | @visit cutoff g' row entries hg' hnd hdead =>
    by_cases hgg : g' = g
    · subst hgg
      have hview : (Sweeper.walking cutoff ((g', row) :: entries)).view g' =
          .walking cutoff (rowsOf g' entries + 1) := by
        simp [Sweeper.view, SweepView.walk, rowsOf_cons]
      rw [hview]
      simp [Sweeper.label, SweepView.next, Sweeper.view, Op.apply, coe_eq_val hnd hdead]
    · obtain ⟨hlabel, hview⟩ := hother cutoff g' row entries hgg
      rw [hlabel, hview]
      simp [Sweeper.view, hgg, Op.apply]
  | leave cutoff entries g' =>
    by_cases hgg : g' = g <;> simp [Sweeper.label, Sweeper.view, SweepView.next, hgg, Op.apply]
  | reap cutoff entries g' client dead =>
    by_cases hgg : g' = g <;>
      simp [Sweeper.label, Sweeper.view, SweepView.next, hgg, Op.apply, Drop.view]
  | @drop cutoff entries g' dead client d d' op hd =>
    obtain ⟨hnext, hop⟩ := drop_view hd
    by_cases hgg : g' = g
    · subst hgg
      simp [Sweeper.label, Sweeper.view, SweepView.next, hnext]
    · simp [Sweeper.label, Sweeper.view, hgg, groups_apply_of_ne fun hg' => hgg (hop g hg').symm]
  | @dropped cutoff entries g' dead client d op hd =>
    obtain ⟨hnext, hop⟩ := drop_view hd
    by_cases hgg : g' = g
    · subst hgg
      simp [Sweeper.label, Sweeper.view, SweepView.next, hnext]
    · simp [Sweeper.label, Sweeper.view, hgg, groups_apply_of_ne fun hg' => hgg (hop g hg').symm]

end MeshlyCore.Registry
