import MeshlyCore.Control.Server
import MeshlyCore.Registry.View

/-!
# Isolation of groups

The control plane as one group sees it (`GroupView`): its maps, the connections that have joined
it with the replies they got, and the sweeper as far as it has to do with the group. Session ids
are random and are left out. The view moves by itself (`GroupView.next`): a step of the server is
a step of the view, under a label that says what happened to the group, or leaves the view as it
is (`view_step`). A label is given to what the connections do whose hello carries the token of
the group, and to what the sweeper does on the rows of the group, and to nothing else.
-/

namespace MeshlyCore.Control

open Protocol Registry Machine

/-! ## The view of a group -/

/-- A reply, but for its session id. -/
def anonymous : Frame → Frame
  | .helloOk _ => .helloOk ⟨0⟩
  | f => f

inductive PhaseView where
  | outside
  | replying (reply : Frame) (propagate : Bool)
  | ready
  | dropping (d : DropView)
  | ended (result : Except SessionError Unit)

structure ConnView where
  remote : EndpointId
  phase : PhaseView
  sent : List Frame

structure GroupView where
  group : Group
  conns : ℕ → Option ConnView
  sweeper : SweepView

def Phase.view : Phase → PhaseView
  | .awaitHello => .outside
  | .rejecting => .outside
  | .replying _ reply propagate => .replying (anonymous reply) propagate
  | .ready _ => .ready
  | .dropping _ d => .dropping d.view
  | .ended _ result => .ended result

/-- A connection that has joined the group. -/
def Conn.view (g : String) (c : Conn) : Option ConnView :=
  if c.phase.joined = some g then some ⟨c.remote, c.phase.view, c.sent.map anonymous⟩ else none

def Server.view (g : String) (w : Server) : GroupView where
  group := w.state.groups g
  conns := fun i => (w.conns i).bind (Conn.view g)
  sweeper := w.sweeper.view g

/-! ## Labels -/

inductive Label where
  | hello (i : ℕ) (remote : EndpointId) (now : Instant)
  | recv (i : ℕ) (input : Incoming) (now : Instant)
  | wrote (i : ℕ) (ok : Bool)
  | cleanup (i : ℕ) (target : Option String)
  | sweep (l : SweepLabel)

/-- What an event is for the group `g` with the token `token`. -/
def Server.label (token g : String) (w : Server) : Event → Option Label
  | .connect _ _ => none
  | .recv i input _ now => (w.conns i).bind fun c =>
      match c.phase, input with
      | .awaitHello, .frame (.hello h) =>
          if h.groupToken = token then some (.hello i c.remote now) else none
      | .ready g', input => if g' = g then some (.recv i input now) else none
      | _, _ => none
  | .wrote i ok => (w.conns i).bind fun c =>
      if c.phase.joined = some g then some (.wrote i ok) else none
  | .cleanup i _ => (w.conns i).bind fun c =>
      match c.phase with
      | .dropping g' d => if g' = g then some (.cleanup i d.target) else none
      | _ => none
  | .sweep input => (w.sweeper.label g input).map .sweep

/-! ## How the view moves -/

/-- A registry with one group. -/
def soloState (g : String) (group : Group) : ServerState :=
  ⟨AList.singleton g "", fun _ => group, ∅⟩

def ConnView.wrote (ok : Bool) (c : ConnView) : ConnView :=
  match c.phase with
  | .replying reply propagate =>
      if ok then { c with phase := .ready, sent := c.sent ++ [reply] }
      else if propagate then { c with phase := .ended (.error .writeFrame) }
      else { c with phase := .ready }
  | _ => c

namespace GroupView

def move (i : ℕ) (c : Option ConnView) (group : Group) (v : GroupView) : GroupView :=
  { v with group := group, conns := Function.update v.conns i c }

/-- One step of a server that has only this group. -/
def next (toStr : EndpointId → String) (g : String) (v : GroupView) : Label → GroupView
  | .hello i remote now =>
      v.move i (some ⟨remote, .replying (.helloOk ⟨0⟩) true, []⟩) (v.group.touchSession remote now)
  | .recv i input now =>
      match v.conns i with
      | some c =>
          let (phase, op) := handleCommand toStr g c.remote now (soloState g v.group) input
          v.move i (some { c with phase := phase.view })
            ((op.apply (soloState g v.group)).groups g)
      | none => v
  | .wrote i ok => v.move i ((v.conns i).map (·.wrote ok)) v.group
  | .cleanup i target =>
      match v.conns i with
      | some ⟨remote, .dropping d, sent⟩ =>
          let (d', group) := d.next remote target v.group
          let phase := match d' with
            | some d' => .dropping d'
            | none => .ended (.ok ())
          v.move i (some ⟨remote, phase, sent⟩) group
      | _ => v
  | .sweep l =>
      let (sweeper, group) := v.sweeper.next v.group l
      { v with group := group, sweeper := sweeper }

end GroupView

section Simulation

variable {toStr : EndpointId → String} {w w' : Server} {e : Event} {g token : String}

/-- What an operation makes of a group depends on that group alone. -/
theorem groups_apply_congr {st st' : ServerState} (op : Op) (h : st.groups g = st'.groups g) :
    (op.apply st).groups g = (op.apply st').groups g := by
  cases op with
  | read => exact h
  | _ =>
    simp only [Op.apply, groups_update]
    split_ifs with hg
    · rw [← hg, h]
    · exact h

/-- A command is handled with the maps of its own group. -/
theorem handleCommand_solo {st : ServerState} (hg : g ∈ st.tokens) (remote : EndpointId)
    (now : Instant) (input : Incoming) :
    handleCommand toStr g remote now (soloState g (st.groups g)) input =
      handleCommand toStr g remote now st input := by
  have hlook : ∀ svc, (soloState g (st.groups g)).lookupService g svc = st.lookupService g svc := by
    intro svc
    have hmem : g ∈ (soloState g (st.groups g)).tokens := by
      simp [soloState, AList.mem_keys, AList.keys_singleton]
    rw [ServerState.lookupService, ServerState.lookupService, ServerState.group,
      ServerState.group, if_pos hg, if_pos hmem]
    rfl
  rcases input with f | _ | _
  · cases f
    case subscribe sub => simp only [handleCommand, handleSubscribe, hlook]
    all_goals rfl
  · rfl
  · rfl

/-- A command writes to its own group, and the connection stays in it. -/
theorem handleCommand_group {st : ServerState} {remote : EndpointId} {now : Instant}
    {input : Incoming} {phase : Phase} {op : Op}
    (h : handleCommand toStr g remote now st input = (phase, op)) :
    phase.joined = some g ∧ ∀ g', op.group? = some g' → g' = g := by
  rcases input with f | _ | _
  · cases f
    case register reg =>
      simp only [handleCommand, handleRegister] at h
      split at h <;> obtain ⟨rfl, rfl⟩ := Prod.mk.inj h <;>
        simp [Phase.joined, Op.group?, eq_comm]
    case subscribe sub =>
      simp only [handleCommand, handleSubscribe] at h
      split at h <;> obtain ⟨rfl, rfl⟩ := Prod.mk.inj h <;> simp [Phase.joined, Op.group?]
    all_goals
      obtain ⟨rfl, rfl⟩ := Prod.mk.inj h
      simp [Phase.joined, Op.group?, eq_comm]
  · obtain ⟨rfl, rfl⟩ := Prod.mk.inj h
    simp [Phase.joined, Op.group?]
  · obtain ⟨rfl, rfl⟩ := Prod.mk.inj h
    simp [Phase.joined, Op.group?]

/-- A connection moves, and the maps of the group change. -/
theorem view_move {i : ℕ} {c : Conn} {st : ServerState} {clock : Instant} :
    Server.view g { w.setConn i c with state := st, clock := clock } =
      (w.view g).move i (c.view g) (st.groups g) := by
  unfold Server.view GroupView.move
  congr 1
  funext j
  show (Function.update w.conns i (some c) j).bind (Conn.view g) = _
  by_cases hj : j = i
  · subst hj
    rw [Function.update_self, Function.update_self]
    rfl
  · rw [Function.update_of_ne hj, Function.update_of_ne hj]

/-- A connection that is not in the group moves, and stays out of it. -/
theorem move_outside {i : ℕ} {c : Option ConnView} {group : Group}
    (hc : (w.view g).conns i = c) (hgroup : group = w.state.groups g) :
    (w.view g).move i c group = w.view g := by
  subst hc hgroup
  unfold GroupView.move
  rw [Function.update_eq_self]
  rfl

/-- What the group has to know of the server: a hello is let into it just when it carries its
token, and a connection that waits for its hello has got no reply. -/
structure Guards (token g : String) (w : Server) : Prop where
  auth : ∀ t, w.state.authenticate t = some g ↔ t = token
  mem : g ∈ w.state.tokens
  unsent : ∀ i c, w.conns i = some c → c.phase = .awaitHello → c.sent = []

theorem conns_view {i : ℕ} {c : Conn} (hc : w.conns i = some c) :
    (w.view g).conns i = c.view g := by
  simp [Server.view, hc]

theorem view_of_joined {c : Conn} (h : c.phase.joined = some g) :
    c.view g = some ⟨c.remote, c.phase.view, c.sent.map anonymous⟩ := if_pos h

theorem view_of_ne {c : Conn} (h : c.phase.joined ≠ some g) : c.view g = none := if_neg h

/-- A hello is let into the group of its token, or the connection stays outside. -/
theorem handleHello_cases {st : ServerState} {remote : EndpointId} {sid : UInt64} {now : Instant}
    {input : Incoming} {phase : Phase} {op : Op}
    (h : handleHello remote sid now st input = (phase, op)) :
    (∃ hello g', input = .frame (.hello hello) ∧ st.authenticate hello.groupToken = some g' ∧
      phase = .replying g' (.helloOk ⟨sid⟩) true ∧ op = .touchSession g' remote now) ∨
    ((∀ hello, input = .frame (.hello hello) → st.authenticate hello.groupToken = none) ∧
      phase.joined = none ∧ op = .read) := by
  rcases input with f | _ | _
  · cases f
    case hello hello =>
      simp only [handleHello] at h
      split at h
      · rename_i g' hauth
        obtain ⟨rfl, rfl⟩ := Prod.mk.inj h
        exact .inl ⟨hello, g', rfl, hauth, rfl, rfl⟩
      · rename_i hauth
        obtain ⟨rfl, rfl⟩ := Prod.mk.inj h
        refine .inr ⟨fun hello' heq => ?_, rfl, rfl⟩
        cases heq
        exact hauth
    all_goals
      obtain ⟨rfl, rfl⟩ := Prod.mk.inj h
      exact .inr ⟨by simp, rfl, rfl⟩
  · obtain ⟨rfl, rfl⟩ := Prod.mk.inj h
    exact .inr ⟨by simp, rfl, rfl⟩
  · obtain ⟨rfl, rfl⟩ := Prod.mk.inj h
    exact .inr ⟨by simp, rfl, rfl⟩

/-- The first frame of a connection. -/
theorem view_hello {i : ℕ} {c c' : Conn} {input : Incoming} {sid : UInt64} {now : Instant}
    {op : Op} (hg : Guards token g w) (hc : w.conns i = some c) (hphase : c.phase = .awaitHello)
    (h : c.recv toStr w.state input sid now = some (c', op)) :
    (w.view g).move i (c'.view g) ((op.apply w.state).groups g) =
      (w.label token g (.recv i input sid now)).toList.foldl (GroupView.next toStr g)
        (w.view g) := by
  have hout : (w.view g).conns i = none := by
    rw [conns_view hc]
    exact view_of_ne (by simp [hphase, Phase.joined])
  cases hcmd : handleHello c.remote sid now w.state input with
  | mk phase op' =>
  simp only [Conn.recv, hphase, hcmd, Option.some.injEq, Prod.mk.injEq] at h
  obtain ⟨rfl, rfl⟩ := h
  rcases handleHello_cases hcmd with ⟨hello, g', rfl, hauth, rfl, rfl⟩ | ⟨hnone, hjoined, rfl⟩
  · by_cases hgg : g' = g
    · subst hgg
      have htoken := (hg.auth _).1 hauth
      have hlabel : w.label token g' (.recv i (.frame (.hello hello)) sid now) =
          some (.hello i c.remote now) := by
        simp [Server.label, hc, hphase, htoken]
      rw [hlabel, view_of_joined rfl, hg.unsent i c hc hphase]
      show _ = GroupView.move i _ _ _
      congr 1
      exact groups_update_self _
    · have htoken : hello.groupToken ≠ token := fun heq =>
        hgg (Option.some.inj (hauth.symm.trans ((hg.auth _).2 heq)))
      have hlabel : w.label token g (.recv i (.frame (.hello hello)) sid now) = none := by
        simp [Server.label, hc, hphase, htoken]
      have hne : some g' ≠ some g := fun heq => hgg (Option.some.inj heq)
      rw [hlabel]
      refine move_outside (hout.trans ?_) (groups_apply_of_ne hne)
      exact (view_of_ne (c := { c with phase := .replying g' (.helloOk ⟨sid⟩) true }) hne).symm
  · have hlabel : w.label token g (.recv i input sid now) = none := by
      rcases input with f | _ | _
      · cases f
        case hello hello =>
          have htoken : hello.groupToken ≠ token := by
            intro heq
            have hauth := (hg.auth _).2 heq
            rw [hnone hello rfl] at hauth
            cases hauth
          simp [Server.label, hc, hphase, htoken]
        all_goals simp [Server.label, hc, hphase]
      · simp [Server.label, hc, hphase]
      · simp [Server.label, hc, hphase]
    rw [hlabel]
    refine move_outside ?_ rfl
    rw [hout, view_of_ne (by rw [hjoined]; simp)]

/-- A command. -/
theorem view_command {i : ℕ} {c c' : Conn} {input : Incoming} {sid : UInt64} {now : Instant}
    {op : Op} {g' : String} (hg : Guards token g w) (hc : w.conns i = some c)
    (hphase : c.phase = .ready g') (h : c.recv toStr w.state input sid now = some (c', op)) :
    (w.view g).move i (c'.view g) ((op.apply w.state).groups g) =
      (w.label token g (.recv i input sid now)).toList.foldl (GroupView.next toStr g)
        (w.view g) := by
  have hold : c.phase.joined = some g' := by rw [hphase]; rfl
  cases hcmd : handleCommand toStr g' c.remote now w.state input with
  | mk phase op' =>
  simp only [Conn.recv, hphase, hcmd, Option.some.injEq, Prod.mk.injEq] at h
  obtain ⟨rfl, rfl⟩ := h
  obtain ⟨hjoined, hop⟩ := handleCommand_group hcmd
  by_cases hgg : g' = g
  · subst hgg
    have hview : (w.view g').conns i = some ⟨c.remote, c.phase.view, c.sent.map anonymous⟩ := by
      rw [conns_view hc, view_of_joined hold]
    have hsolo : handleCommand toStr g' c.remote now (soloState g' (w.view g').group) input =
        (phase, op') := (handleCommand_solo hg.mem _ _ _).trans hcmd
    simp only [Server.label, hc, Option.bind_some, hphase, if_true, Option.toList_some,
      List.foldl_cons, List.foldl_nil, GroupView.next, hview, hsolo]
    have hgroup : (op'.apply w.state).groups g' =
        (op'.apply (soloState g' (w.view g').group)).groups g' := groups_apply_congr op' rfl
    rw [view_of_joined hjoined, hgroup]
  · have hlabel : w.label token g (.recv i input sid now) = none := by
      simp [Server.label, hc, hphase, hgg]
    have hne : some g' ≠ some g := fun heq => hgg (Option.some.inj heq)
    rw [hlabel]
    refine move_outside ?_ (groups_apply_of_ne fun heq => hgg (hop g heq).symm)
    rw [conns_view hc, view_of_ne (hold ▸ hne), view_of_ne (hjoined ▸ hne)]

/-- The write of a reply. -/
theorem view_wrote {i : ℕ} {c c' : Conn} {ok : Bool} (hc : w.conns i = some c)
    (h : c.wrote ok = some c') :
    (w.view g).move i (c'.view g) (w.state.groups g) =
      (w.label token g (.wrote i ok)).toList.foldl (GroupView.next toStr g) (w.view g) := by
  have hlabel : w.label token g (.wrote i ok) =
      if c.phase.joined = some g then some (.wrote i ok) else none := by
    simp [Server.label, hc]
  have hmoves := moves_wrote h
  unfold Conn.wrote at h
  split at h
  case h_1 hphase =>
    obtain rfl := Option.some.inj h
    have hold : c.phase.joined ≠ some g := by simp [hphase, Phase.joined]
    rw [hlabel, if_neg hold]
    refine move_outside ?_ rfl
    rw [conns_view hc, view_of_ne hold]
    exact (view_of_ne (by simp [Phase.joined])).symm
  case h_2 g' reply p hphase =>
    obtain rfl := Option.some.inj h
    have hold : c.phase.joined = some g' := by rw [hphase]; rfl
    have hnew := hmoves.2.1 g' hold
    by_cases hgg : g' = g
    · subst hgg
      rw [hlabel, if_pos hold, view_of_joined hnew]
      have hview : (w.view g').conns i =
          some ⟨c.remote, .replying (anonymous reply) p, c.sent.map anonymous⟩ := by
        rw [conns_view hc, view_of_joined hold, hphase]
        rfl
      show _ = GroupView.move i (((w.view g').conns i).map (·.wrote ok)) _ _
      rw [hview]
      cases ok <;> cases p <;> simp [ConnView.wrote, Phase.view, Server.view]
    · have hne : some g' ≠ some g := fun heq => hgg (Option.some.inj heq)
      have hout : c.phase.joined ≠ some g := hold ▸ hne
      rw [hlabel, if_neg hout]
      refine move_outside ?_ rfl
      rw [conns_view hc, view_of_ne hout, view_of_ne fun heq => hne (hnew.symm.trans heq)]
  · cases h

/-- An operation of the clean-up. -/
theorem view_cleanup {i : ℕ} {c c' : Conn} {scanned : List String} {op : Op}
    (hc : w.conns i = some c) (h : c.cleanup w.state scanned = some (c', op)) :
    (w.view g).move i (c'.view g) ((op.apply w.state).groups g) =
      (w.label token g (.cleanup i scanned)).toList.foldl (GroupView.next toStr g)
        (w.view g) := by
  obtain ⟨g', d, d', hphase, hd, hremote, hsent, hphase'⟩ := cleanup_cases h
  obtain ⟨hnext, hop⟩ := drop_view hd
  have hold : c.phase.joined = some g' := by rw [hphase]; rfl
  have hnew : c'.phase.joined = some g' := by
    rcases hphase' with ⟨e, -, hp⟩ | ⟨-, hp⟩ <;> rw [hp] <;> rfl
  have hlabel : w.label token g (.cleanup i scanned) =
      if g' = g then some (.cleanup i d.target) else none := by
    simp [Server.label, hc, hphase]
  by_cases hgg : g' = g
  · subst hgg
    have hview : (w.view g').conns i =
        some ⟨c.remote, .dropping d.view, c.sent.map anonymous⟩ := by
      rw [conns_view hc, view_of_joined hold, hphase]
      rfl
    rw [hlabel, if_pos rfl, view_of_joined hnew, hremote, hsent]
    simp only [Option.toList_some, List.foldl_cons, List.foldl_nil, GroupView.next, hview]
    have hnext' : d.view.next c.remote d.target (w.view g').group =
      (d'.map Drop.view, (op.apply w.state).groups g') := hnext
    rw [hnext']
    rcases hphase' with ⟨e, rfl, hp⟩ | ⟨rfl, hp⟩ <;> rw [hp] <;> rfl
  · have hne : some g' ≠ some g := fun heq => hgg (Option.some.inj heq)
    rw [hlabel, if_neg hgg]
    refine move_outside ?_ (groups_apply_of_ne fun heq => hgg (hop g heq).symm)
    rw [conns_view hc, view_of_ne (hold ▸ hne), view_of_ne (hnew ▸ hne)]

theorem view_sweep {input : SweepInput} {s : Sweeper} {op : Op} (hg : Guards token g w)
    (h : w.sweeper.step w.state input = some (s, op)) :
    Server.view g { w with state := op.apply w.state, sweeper := s, clock := input.now } =
      (w.label token g (.sweep input)).toList.foldl (GroupView.next toStr g) (w.view g) := by
  have hview := sweep_view h hg.mem
  have hlabel : w.label token g (.sweep input) = (w.sweeper.label g input).map .sweep := rfl
  rw [hlabel]
  cases hl : w.sweeper.label g input with
  | none =>
    rw [hl] at hview
    obtain ⟨hsweeper, hgroup⟩ := Prod.mk.inj hview
    simp only [Option.map_none, Option.toList_none, List.foldl_nil, Server.view]
    rw [← hsweeper, ← hgroup]
  | some l =>
    rw [hl] at hview
    have hnext : (w.view g).sweeper.next (w.view g).group l =
        (s.view g, (op.apply w.state).groups g) := hview
    simp only [Option.map_some, Option.toList_some, List.foldl_cons, List.foldl_nil,
      GroupView.next, hnext]
    rfl

/-- **The view of a group moves by its labels.** -/
theorem view_step (hg : Guards token g w) (h : Steps toStr w e w') :
    w'.view g = (w.label token g e).toList.foldl (GroupView.next toStr g) (w.view g) := by
  rcases next_cases h with ⟨i, remote, rfl, hi, rfl⟩ |
      ⟨i, input, sid, now, c, c', op, rfl, hi, hc, rfl⟩ | ⟨i, ok, c, c', rfl, hi, hc, rfl⟩ |
      ⟨i, scanned, c, c', op, rfl, hi, hc, rfl⟩ | ⟨input, s, op, rfl, hs, rfl⟩
  · refine view_move.trans (move_outside ?_ rfl)
    simp [Server.view, hi, Conn.view, Phase.joined]
  · rw [view_move]
    cases hphase : c.phase with
    | awaitHello => exact view_hello hg hi hphase hc
    | ready g' => exact view_command hg hi hphase hc
    | _ => simp [Conn.recv, hphase] at hc
  · exact view_move.trans (view_wrote hi hc)
  · exact view_move.trans (view_cleanup hi hc)
  · exact view_sweep hg hs

theorem guards_step (h : Steps toStr w e w') (hg : Guards token g w) : Guards token g w' := by
  have htokens := tokens_step h
  refine ⟨?_, by rw [htokens]; exact hg.mem, ?_⟩
  · intro t
    unfold ServerState.authenticate
    rw [htokens]
    exact hg.auth t
  · intro i c' hc' hphase
    rcases conns_of_step h hc' with ⟨remote, -, rfl⟩ | ⟨c, hc, rfl | ⟨input, sid, now, op, -, hr⟩ |
        ⟨ok, hw, -⟩ | ⟨scanned, op, hclean, -⟩⟩
    · rfl
    · exact hg.unsent i c' hc hphase
    · -- No step leads back to the beginning.
      rcases recv_cases hr with ⟨_, -, -, hp, -⟩ | ⟨hp, hp', -⟩ | ⟨_, _, -, -, -, hp, -⟩ |
          ⟨_, -, hp, -⟩ | ⟨_, -, hp, -⟩ | ⟨_, -, hp, -⟩
      · simp [hp] at hphase
      · rw [(recv_remote hr).2]
        exact hg.unsent i c hc hp
      · simp [hp] at hphase
      · simp [hp] at hphase
      · simp [hp] at hphase
      · simp [hphase, Phase.serving] at hp
    · obtain ⟨-, hw⟩ := wrote_cases hw
      rcases hw with ⟨-, hp, -⟩ | ⟨_, _, _, -, hp, -⟩ | ⟨_, _, -, -, hp, -⟩ <;>
        simp [hp] at hphase
    · obtain ⟨_, _, _, -, -, -, -, hp⟩ := cleanup_cases hclean
      rcases hp with ⟨_, -, hp⟩ | ⟨-, hp⟩ <;> simp [hp] at hphase

/-! ## Replies -/

/-- The connection an event is on. -/
def Event.conn? : Event → Option ℕ
  | .connect i _ => some i
  | .recv i _ _ _ => some i
  | .wrote i _ => some i
  | .cleanup i _ => some i
  | .sweep _ => none

/-- The replies on a connection that has joined the group, but for session ids. -/
def Server.replies (g : String) (w : Server) (i : ℕ) : Option (List Frame) :=
  (w.conns i).bind fun c => if c.phase.joined = some g then some (c.sent.map anonymous) else none

theorem replies_eq (g : String) (w : Server) (i : ℕ) :
    w.replies g i = ((w.view g).conns i).map (·.sent) := by
  show _ = ((w.conns i).bind (Conn.view g)).map (·.sent)
  unfold Server.replies
  cases w.conns i with
  | none => rfl
  | some c =>
    simp only [Option.bind_some, Conn.view]
    split_ifs <;> rfl

/-- A connection that is in no group writes to none. -/
theorem state_of_outside (h : Steps toStr w e w') {i : ℕ} {c : Conn} (he : e.conn? = some i)
    (hc : w'.conns i = some c) (hout : c.phase.joined = none) : w'.state = w.state := by
  rcases next_cases h with ⟨_, _, rfl, -, rfl⟩ | ⟨j, input, sid, now, d, d', op, rfl, -, hd, rfl⟩ |
      ⟨_, _, _, _, -, -, -, rfl⟩ | ⟨j, scanned, d, d', op, rfl, -, hd, rfl⟩ | ⟨_, _, _, rfl, -, -⟩
  · rfl
  · obtain rfl := Option.some.inj he
    obtain rfl : d' = c := Option.some.inj ((conns_setConn_self j d').symm.trans hc)
    rcases recv_cases hd with ⟨_, -, -, hp, -⟩ | ⟨-, -, rfl⟩ | ⟨_, _, -, -, -, hp, -⟩ |
        ⟨_, -, hp, -⟩ | ⟨_, -, hp, -⟩ | ⟨_, -, hp, -⟩
    · simp [hp, Phase.joined] at hout
    · rfl
    · simp [hp, Phase.joined] at hout
    · simp [hp, Phase.joined] at hout
    · simp [hp, Phase.joined] at hout
    · simp [Phase.joined_of_serving hp] at hout
  · rfl
  · obtain rfl := Option.some.inj he
    obtain rfl : d' = c := Option.some.inj ((conns_setConn_self j d').symm.trans hc)
    obtain ⟨_, _, _, -, -, -, -, hp⟩ := cleanup_cases hd
    rcases hp with ⟨_, -, hp⟩ | ⟨-, hp⟩ <;> simp [hp, Phase.joined] at hout
  · cases he

theorem guards_init {cfg : List GroupConfig} {overrides : List (EndpointId × UInt64)}
    {st : ServerState} (hst : st.Reorders (.new cfg overrides))
    (hnames : (cfg.map (·.name)).Nodup) (htokens : (cfg.map (·.groupToken)).Nodup)
    {gc : GroupConfig} (hgc : gc ∈ cfg) : Guards gc.groupToken gc.name (Server.init st) := by
  refine ⟨ServerState.authenticate_iff hst hnames htokens hgc, ?_, by simp [Server.init]⟩
  have hmem := (ServerState.mem_tokens_of_reorders hst hnames ⟨gc.name, gc.groupToken⟩).2
    ⟨gc, hgc, rfl⟩
  exact AList.mem_keys.2 (List.mem_map_of_mem hmem)

end Simulation

end MeshlyCore.Control
