import MeshlyCore.Control.Isolation
import MeshlyCore.Registry.Whole

/-!
# Runs in which sweeps and clean-ups are undivided

A sweep or the clean-up of a connection that nothing interrupts is one event: it has begun, and
with that its outcome is settled. So in a run in which they are all undivided a group need not be
told what they find on their way; it is enough to know that they happen, and when the sweeps do
(`Server.outline`).

`Outlines g w v` says that `v` is what the group will see once what has begun is done. It moves
by these labels alone.

**Theorem (`groups_isolated`).** Two runs that look the same to a group leave it in the same
state, with the same replies on its connections; when the sweeps and clean-ups are undivided, it
is enough that its connections do the same and that the sweeps are at the same times. And a
connection that has joined no group has changed none.
-/

namespace MeshlyCore.Control

open Protocol Registry Machine

/-! ## Undivided runs -/

/-- In the middle of the clean-up. -/
def Phase.cleaning : Phase → Bool
  | .dropping _ d => d ≠ .removeSession
  | _ => false

/-- No sweep and no clean-up is on its way. -/
def Server.Settled (w : Server) : Prop :=
  w.sweeper = .idle ∧ ∀ i c, w.conns i = some c → c.phase.cleaning = false

/-- Nothing comes between the operations of a sweep or of a clean-up. -/
def Undivided (w : Server) (e : Event) : Prop :=
  (w.sweeper ≠ .idle → ∃ input, e = .sweep input) ∧
    ∀ i c, w.conns i = some c → c.phase.cleaning → ∃ scanned, e = .cleanup i scanned

/-- The event is not the continuation of a sweep or of a clean-up. -/
def Server.begins (w : Server) : Event → Bool
  | .cleanup i _ => (w.conns i).all fun c => !c.phase.cleaning
  | .sweep _ => w.sweeper = .idle
  | _ => true

/-- What an event is for the group when sweeps and clean-ups are one event. -/
def Server.outline (token g : String) (w : Server) (e : Event) : Option Label :=
  if w.begins e then w.label token g e else none

/-- One step of a server that has only this group, with sweeps and clean-ups in one go. -/
def GroupView.leap (toStr : EndpointId → String) (g : String) (v : GroupView) : Label → GroupView
  | .cleanup i _ =>
      match v.conns i with
      | some c => v.move i (some { c with phase := .ended (.ok ()) }) (v.group.without {c.remote})
      | none => v
  | .sweep (.start now timeout) => { v with group := v.group.sweep (now - timeout) }
  | .sweep _ => v
  | l => v.next toStr g l

section Outline

variable {toStr : EndpointId → String} {w w' : Server} {e : Event} {g token : String}

/-- The view once the clean-up of connection `i`, which stands at `d`, is done. -/
def cleaned (g : String) (w : Server) (i : ℕ) (c : Conn) (g' : String) (d : Drop) : GroupView :=
  (w.view g).move i (Conn.view g { c with phase := .ended (some g') (.ok ()) })
    (if g' = g then d.rest c.remote (w.state.groups g) else w.state.groups g)

/-- The view once the sweep is done. -/
def swept (g : String) (w : Server) : GroupView :=
  { w.view g with group := w.sweeper.rest g (w.state.groups g), sweeper := .away }

inductive Outlines (g : String) (w : Server) : GroupView → Prop
  | settled : w.Settled → Outlines g w (w.view g)
  | cleaning {i : ℕ} {c : Conn} {g' : String} {d : Drop} : w.sweeper = .idle →
      w.conns i = some c → c.phase = .dropping g' d → d ≠ .removeSession →
      (∀ j c, j ≠ i → w.conns j = some c → c.phase.cleaning = false) →
      Outlines g w (cleaned g w i c g' d)
  | sweeping : w.sweeper ≠ .idle → (∀ i c, w.conns i = some c → c.phase.cleaning = false) →
      Outlines g w (swept g w)

/-! ## Clean-ups -/

/-- An operation of a clean-up does not change its outcome. -/
theorem cleaned_step {i : ℕ} {c c' : Conn} {g' : String} {d : Drop} {d' : Option Drop}
    {scanned : List String} {op : Op} (hd : d.step g' c.remote w.state scanned = some (d', op))
    (hremote : c'.remote = c.remote) (hsent : c'.sent = c.sent)
    (hphase' : (∃ e, d' = some e ∧ c'.phase = .dropping g' e) ∨
      d' = none ∧ c'.phase = .ended (some g') (.ok ())) :
    (d'.elim (Server.view g { w.setConn i c' with state := op.apply w.state })
      (cleaned g { w.setConn i c' with state := op.apply w.state } i c' g')) =
      cleaned g w i c g' d := by
  have hend : ({ c' with phase := .ended (some g') (.ok ()) } : Conn) =
      { c with phase := .ended (some g') (.ok ()) } := by
    rw [hremote, hsent]
  have hview : Server.view g { w.setConn i c' with state := op.apply w.state } =
      (w.view g).move i (c'.view g) ((op.apply w.state).groups g) := view_move
  have hgroup : (if g' = g then d'.elim id (Drop.rest c.remote) ((op.apply w.state).groups g)
      else (op.apply w.state).groups g) =
      if g' = g then d.rest c.remote (w.state.groups g) else w.state.groups g := by
    by_cases hgg : g' = g
    · subst hgg
      rw [if_pos rfl, if_pos rfl, drop_rest hd]
    · rw [if_neg hgg, if_neg hgg]
      exact groups_apply_of_ne fun heq => hgg ((drop_view hd).2 g heq).symm
  unfold cleaned
  rw [← hgroup]
  rcases hphase' with ⟨d', rfl, hp⟩ | ⟨rfl, hp⟩
  · show (Server.view g _).move i _ _ = _
    rw [hview, hend, hremote]
    simp [GroupView.move]
  · have hc' : c' = { c with phase := .ended (some g') (.ok ()) } := by
      rw [← hend, ← hp]
    rw [Option.elim_none, hview, hc']
    simp

/-- The beginning of a clean-up. -/
theorem cleaned_start {i : ℕ} {c : Conn} {g' : String} {scanned : List String}
    (hc : w.conns i = some c) (hphase : c.phase = .dropping g' .removeSession) :
    cleaned g w i c g' .removeSession =
      (w.outline token g (.cleanup i scanned)).toList.foldl (GroupView.leap toStr g)
        (w.view g) := by
  have hjoined : c.phase.joined = some g' := by rw [hphase]; rfl
  have hlabel : w.outline token g (.cleanup i scanned) =
      if g' = g then some (.cleanup i none) else none := by
    simp [Server.outline, Server.begins, Server.label, hc, hphase, Phase.cleaning, Drop.target]
  unfold cleaned
  by_cases hgg : g' = g
  · subst hgg
    have hview : (w.view g').conns i = some ⟨c.remote, c.phase.view, c.sent.map anonymous⟩ := by
      rw [conns_view hc, view_of_joined hjoined]
    rw [hlabel, if_pos rfl, if_pos rfl, view_of_joined rfl]
    simp only [Option.toList_some, List.foldl_cons, List.foldl_nil, GroupView.leap, hview]
    rfl
  · have hne : some g' ≠ some g := fun heq => hgg (Option.some.inj heq)
    have hout : Conn.view g { c with phase := .ended (some g') (.ok ()) } = none := if_neg hne
    rw [hlabel, if_neg hgg, if_neg hgg, hout]
    exact move_outside (by rw [conns_view hc, view_of_ne (hjoined ▸ hne)]) rfl

/-! ## Steps -/

/-- Nothing but a clean-up or a sweep leaps. -/
theorem leap_eq_next (hclean : ∀ i scanned, e ≠ .cleanup i scanned)
    (hsweep : ∀ input, e ≠ .sweep input) (v : GroupView) :
    (w.outline token g e).toList.foldl (GroupView.leap toStr g) v =
      (w.label token g e).toList.foldl (GroupView.next toStr g) v := by
  cases e with
  | connect i remote => rfl
  | recv i input sid now =>
    simp only [Server.outline, Server.begins, if_true, Server.label]
    cases w.conns i with
    | none => rfl
    | some c =>
      rw [Option.bind_some]
      split
      · split_ifs <;> rfl
      · split_ifs <;> rfl
      · rfl
  | wrote i ok =>
    simp only [Server.outline, Server.begins, if_true, Server.label]
    cases w.conns i with
    | none => rfl
    | some c =>
      rw [Option.bind_some]
      split_ifs <;> rfl
  | cleanup i scanned => exact absurd rfl (hclean i scanned)
  | sweep input => exact absurd rfl (hsweep input)

theorem not_cleaning_setConn {i : ℕ} {c : Conn}
    (hw : ∀ j c, w.conns j = some c → c.phase.cleaning = false) (hc : c.phase.cleaning = false)
    (j : ℕ) (d : Conn) (hd : (w.setConn i c).conns j = some d) : d.phase.cleaning = false := by
  by_cases hj : j = i
  · subst hj
    rw [conns_setConn_self] at hd
    rwa [← Option.some.inj hd]
  · rw [conns_setConn_of_ne hj] at hd
    exact hw j d hd

theorem not_cleaning_of_drop? {c : Conn} (h : c.drop? = none) : c.phase.cleaning = false := by
  cases hphase : c.phase with
  | dropping g d => simp [Conn.drop?, hphase] at h
  | _ => rfl

theorem recv_not_cleaning {st : ServerState} {input : Incoming} {sid : UInt64} {now : Instant}
    {c c' : Conn} {op : Op} (h : c.recv toStr st input sid now = some (c', op)) :
    c'.phase.cleaning = false := by
  rcases recv_cases h with ⟨_, -, -, hp, -⟩ | ⟨-, hp, -⟩ | ⟨_, _, -, -, -, hp, -⟩ |
      ⟨_, -, hp, -⟩ | ⟨_, -, hp, -⟩ | ⟨_, -, hp, -⟩
  · rw [hp]
    rfl
  · exact not_cleaning_of_drop? (drop?_of_joined_eq_none hp)
  · rw [hp]
    rfl
  · rw [hp]
    rfl
  · -- A clean-up that has not begun.
    rw [hp]
    rfl
  · exact not_cleaning_of_drop? (drop?_of_serving hp)

theorem wrote_not_cleaning {ok : Bool} {c c' : Conn} (h : c.wrote ok = some c') :
    c'.phase.cleaning = false := by
  obtain ⟨-, hw⟩ := wrote_cases h
  rcases hw with ⟨-, hp, -⟩ | ⟨_, _, _, -, hp, -⟩ | ⟨_, _, -, -, hp, -⟩ <;> rw [hp] <;> rfl

/-- The operations of a clean-up, the first as well as the others. -/
theorem outlines_cleanup {i : ℕ} {c c' : Conn} {scanned : List String} {op : Op} {g' : String}
    {d : Drop} (hidle : w.sweeper = .idle)
    (hw : ∀ j c, j ≠ i → w.conns j = some c → c.phase.cleaning = false)
    (hphase : c.phase = .dropping g' d) (h : c.cleanup w.state scanned = some (c', op)) :
    Outlines g { w.setConn i c' with state := op.apply w.state } (cleaned g w i c g' d) := by
  obtain ⟨g₁, d₁, d', hphase₁, hd, hremote, hsent, hphase'⟩ := cleanup_cases h
  obtain ⟨rfl, rfl⟩ := Phase.dropping.inj (hphase₁.symm.trans hphase)
  rw [← cleaned_step hd hremote hsent hphase']
  have hothers : ∀ j c, j ≠ i → (w.setConn i c').conns j = some c → c.phase.cleaning = false := by
    intro j c hj hc
    rw [conns_setConn_of_ne hj] at hc
    exact hw j c hj hc
  rcases hphase' with ⟨e, rfl, hp⟩ | ⟨rfl, hp⟩
  · refine .cleaning hidle (conns_setConn_self i c') hp ?_ hothers
    rcases drop_cases hd with ⟨-, he, -⟩ | ⟨-, he, -⟩ | ⟨_, _, -, he, -⟩ | ⟨-, he, -⟩
    · cases he
      simp
    · cases he
      simp
    · cases he
      simp
    · cases he
  · refine .settled ⟨hidle, fun j c hc => ?_⟩
    by_cases hj : j = i
    · subst hj
      obtain rfl := Option.some.inj ((conns_setConn_self j c').symm.trans hc)
      rw [hp]
      rfl
    · exact hothers j c hj hc

theorem settled_step (hclean : ∀ i scanned, e ≠ .cleanup i scanned)
    (hsweep : ∀ input, e ≠ .sweep input) (h : Steps toStr w e w') (hw : w.Settled) :
    w'.Settled := by
  rcases next_cases h with ⟨i, remote, -, -, rfl⟩ | ⟨i, _, _, _, c, c', op, -, -, hc, rfl⟩ |
      ⟨i, ok, c, c', -, -, hc, rfl⟩ | ⟨i, scanned, _, _, _, he, -, -, -⟩ | ⟨input, _, _, he, -, -⟩
  · exact ⟨hw.1, not_cleaning_setConn hw.2 rfl⟩
  · exact ⟨hw.1, not_cleaning_setConn hw.2 (recv_not_cleaning hc)⟩
  · exact ⟨hw.1, not_cleaning_setConn hw.2 (wrote_not_cleaning hc)⟩
  · exact absurd he (hclean i scanned)
  · exact absurd he (hsweep input)

/-- From a settled state. -/
theorem outlines_of_settled (hg : Guards token g w) (hw : w.Settled) (h : Steps toStr w e w') :
    Outlines g w'
      ((w.outline token g e).toList.foldl (GroupView.leap toStr g) (w.view g)) := by
  have hsingle : (∀ i scanned, e ≠ .cleanup i scanned) → (∀ input, e ≠ .sweep input) →
      Outlines g w'
        ((w.outline token g e).toList.foldl (GroupView.leap toStr g) (w.view g)) := by
    intro hclean hsweep
    rw [leap_eq_next hclean hsweep, ← view_step hg h]
    exact .settled (settled_step hclean hsweep h hw)
  rcases next_cases h with ⟨i, remote, rfl, -, -⟩ | ⟨i, input, sid, now, c, c', op, rfl, -, -, -⟩ |
      ⟨i, ok, c, c', rfl, -, -, -⟩ | ⟨i, scanned, c, c', op, rfl, hi, hc, rfl⟩ |
      ⟨input, s, op, rfl, hs, rfl⟩
  · exact hsingle (by simp) (by simp)
  · exact hsingle (by simp) (by simp)
  · exact hsingle (by simp) (by simp)
  · obtain ⟨g', d, -, hphase, -⟩ := cleanup_cases hc
    have hd : d = .removeSession := by
      have := hw.2 i c hi
      rw [hphase] at this
      simpa [Phase.cleaning] using this
    subst hd
    rw [← cleaned_start hi hphase]
    exact outlines_cleanup hw.1 (fun j c _ => hw.2 j c) hphase hc
  · have hidle := hw.1
    rw [hidle] at hs
    simp only [Sweeper.step] at hs
    split_ifs at hs with hseen
    obtain ⟨rfl, rfl⟩ := Prod.mk.inj (Option.some.inj hs)
    have hleap : (w.outline token g (.sweep input)).toList.foldl (GroupView.leap toStr g)
        (w.view g) = { w.view g with
          group := (w.state.groups g).sweep (input.now - input.timeout) } := by
      have hlabel : w.outline token g (.sweep input) =
          some (.sweep (.start input.now input.timeout)) := by
        simp [Server.outline, Server.begins, Server.label, hidle, Sweeper.label]
      rw [hlabel]
      rfl
    have hswept : swept g { w with
        state := Op.read.apply w.state
        sweeper := .walking (input.now - input.timeout) (w.state.dumpServices input.seen)
        clock := input.now } = { w.view g with
          group := (w.state.groups g).sweep (input.now - input.timeout) } := by
      rw [← sweep_start _ hseen hg.mem]
      simp [swept, Server.view, hidle, Sweeper.view, Op.apply]
    rw [hleap, ← hswept]
    exact .sweeping (by simp) hw.2

/-- **Outlines move by the labels of beginnings.** -/
theorem outlines_step (hg : Guards token g w) (hund : Undivided w e) (h : Steps toStr w e w')
    {v : GroupView} (hv : Outlines g w v) :
    Outlines g w' ((w.outline token g e).toList.foldl (GroupView.leap toStr g) v) := by
  cases hv with
  | settled hw => exact outlines_of_settled hg hw h
  | @cleaning i c g' d hidle hc hphase hd hothers =>
    have hcleaning : c.phase.cleaning := by simp [hphase, Phase.cleaning, hd]
    obtain ⟨scanned, rfl⟩ := hund.2 i c hc hcleaning
    have hnone : w.outline token g (.cleanup i scanned) = none := by
      simp [Server.outline, Server.begins, hc, hcleaning]
    rw [hnone]
    obtain ⟨c₁, hc₁, h'⟩ := Option.bind_eq_some_iff.1 h
    obtain rfl := Option.some.inj (hc₁.symm.trans hc)
    obtain ⟨⟨c', op⟩, hclean, rfl⟩ := Option.map_eq_some_iff.1 h'
    exact outlines_cleanup hidle hothers hphase hclean
  | sweeping hsweep hothers =>
    obtain ⟨input, rfl⟩ := hund.1 hsweep
    have hnone : w.outline token g (.sweep input) = none := by
      simp [Server.outline, Server.begins, hsweep]
    rw [hnone]
    rcases next_cases h with ⟨_, _, he, -, -⟩ | ⟨_, _, _, _, _, _, _, he, -, -, -⟩ |
        ⟨_, _, _, _, he, -, -, -⟩ | ⟨_, _, _, _, _, he, -, -, -⟩ | ⟨input', s, op, he, hs, rfl⟩
    · cases he
    · cases he
    · cases he
    · cases he
    · cases he
      have hrest := sweep_rest hs hsweep hg.mem
      have hswept : swept g { w with
          state := op.apply w.state, sweeper := s, clock := input.now } = swept g w := by
        unfold swept
        rw [← hrest]
        rfl
      show Outlines g _ (swept g w)
      rw [← hswept]
      by_cases hs' : s = .idle
      · subst hs'
        exact .settled ⟨rfl, hothers⟩
      · exact .sweeping hs' hothers

/-! ## Two runs -/

/-- The group has the same sessions and services, and its connections have the same replies. -/
def SameFor (g : String) (w₁ w₂ : Server) : Prop :=
  w₁.state.groups g = w₂.state.groups g ∧ ∀ i, w₁.replies g i = w₂.replies g i

theorem sameFor_of_view {w₁ w₂ : Server} (h : w₁.view g = w₂.view g) : SameFor g w₁ w₂ :=
  ⟨congrArg GroupView.group h, fun i => by rw [replies_eq, replies_eq, h]⟩

/-- A settled state is its own outline. -/
theorem eq_view_of_settled {v : GroupView} (hv : Outlines g w v) (hw : w.Settled) :
    v = w.view g := by
  cases hv with
  | settled => rfl
  | @cleaning i c g' d _ hc hphase hd _ =>
    have := hw.2 i c hc
    simp [hphase, Phase.cleaning, hd] at this
  | sweeping hsweep _ => exact absurd hw.1 hsweep

/-- **Isolation.** With distinct names and tokens, two runs in which the connections that carry
the token of a group do the same, and the sweeper does the same to the group, end with the same
sessions and services in the group and the same replies on its connections, whatever else happens
in them. When nothing comes between the operations of a sweep or of a clean-up, it is enough that
the connections of the group do the same and the sweeps come at the same times. And a connection
that has joined no group changes none. -/
theorem groups_isolated {cfg : List GroupConfig} {overrides : List (EndpointId × UInt64)}
    (hnames : (cfg.map (·.name)).Nodup) (htokens : (cfg.map (·.groupToken)).Nodup)
    {st₁ st₂ : ServerState} (hst₁ : st₁.Reorders (.new cfg overrides))
    (hst₂ : st₂.Reorders (.new cfg overrides)) {es₁ es₂ : List Event} {w₁ w₂ : Server}
    (hrun₁ : Run (Steps toStr) (Server.init st₁) es₁ w₁)
    (hrun₂ : Run (Steps toStr) (Server.init st₂) es₂ w₂) :
    (∀ gc ∈ cfg,
      observe (Server.next toStr) (Server.label gc.groupToken gc.name) (Server.init st₁) es₁ =
        observe (Server.next toStr) (Server.label gc.groupToken gc.name) (Server.init st₂) es₂ →
      SameFor gc.name w₁ w₂) ∧
    (∀ gc ∈ cfg, Run (Guarded Undivided (Steps toStr)) (Server.init st₁) es₁ w₁ →
      Run (Guarded Undivided (Steps toStr)) (Server.init st₂) es₂ w₂ → w₁.Settled → w₂.Settled →
      observe (Server.next toStr) (Server.outline gc.groupToken gc.name) (Server.init st₁) es₁ =
        observe (Server.next toStr) (Server.outline gc.groupToken gc.name) (Server.init st₂) es₂ →
      SameFor gc.name w₁ w₂) ∧
    ∀ e w' i c, Steps toStr w₁ e w' → e.conn? = some i → w'.conns i = some c →
      c.phase.joined = none → w'.state = w₁.state := by
  have hinit : ∀ gc : GroupConfig,
      (Server.init st₁).view gc.name = (Server.init st₂).view gc.name := by
    intro gc
    simp [Server.view, Server.init, hst₁.2.1, hst₂.2.1]
  refine ⟨fun gc hgc hobs => ?_, fun gc hgc hund₁ hund₂ hset₁ hset₂ hobs => ?_,
    fun _ _ _ _ hs he hc hout => state_of_outside hs he hc hout⟩
  · have hview : ∀ {st : ServerState} {es : List Event} {w : Server},
        st.Reorders (.new cfg overrides) → Run (Steps toStr) (Server.init st) es w →
        w.view gc.name = (observe (Server.next toStr) (Server.label gc.groupToken gc.name)
          (Server.init st) es).foldl (GroupView.next toStr gc.name)
          ((Server.init st).view gc.name) := by
      intro st es w hst hrun
      exact view_run (fun _ _ _ hs hg => guards_step hs hg) (fun _ _ _ hs hg => view_step hg hs)
        hrun (guards_init hst hnames htokens hgc)
    refine sameFor_of_view ?_
    rw [hview hst₁ hrun₁, hview hst₂ hrun₂, hobs, hinit]
  · have hview : ∀ {st : ServerState} {es : List Event} {w : Server},
        st.Reorders (.new cfg overrides) →
        Run (Guarded Undivided (Steps toStr)) (Server.init st) es w → w.Settled →
        w.view gc.name = (observe (Server.next toStr) (Server.outline gc.groupToken gc.name)
          (Server.init st) es).foldl (GroupView.leap toStr gc.name)
          ((Server.init st).view gc.name) := by
      intro st es w hst hrun hset
      have h0 : Outlines gc.name (Server.init st) ((Server.init st).view gc.name) :=
        .settled ⟨rfl, by simp [Server.init]⟩
      have hend := observe_run
        (R := fun w v => Guards gc.groupToken gc.name w ∧ Outlines gc.name w v)
        (fun _ _ _ hs => hs.2)
        (fun _ _ _ _ hs hv => ⟨guards_step hs.2 hv.1, outlines_step hv.1 hs.1 hs.2 hv.2⟩)
        hrun ⟨guards_init hst hnames htokens hgc, h0⟩
      exact (eq_view_of_settled hend.2 hset).symm
    refine sameFor_of_view ?_
    rw [hview hst₁ hund₁ hset₁, hview hst₂ hund₂ hset₂, hobs, hinit]

/-! ## Two groups -/

def twoGroups : List GroupConfig := [⟨"home", "token"⟩, ⟨"work", "badge"⟩]

/-- alice in one group. -/
def aloneEvents : List Event := joinEvents 0 alice "token" ++ registerEvents 0 "web"

/-- The same, with bob busy in the other one. -/
def busyEvents : List Event :=
  joinEvents 1 bob "badge" ++ joinEvents 0 alice "token" ++ registerEvents 1 "web" ++
    registerEvents 0 "web"

/-- What alice's group sees of both. -/
def homeLabels : List Label :=
  [.hello 0 alice 0, .wrote 0 true, .recv 0 (.frame (.register ⟨"web"⟩)) 0, .wrote 0 true]

theorem exec_aloneEvents :
    (exec (Server.next Iroh.hex.toStr) (Server.init (.new twoGroups [])) aloneEvents).isSome := by
  decide

theorem exec_busyEvents :
    (exec (Server.next Iroh.hex.toStr) (Server.init (.new twoGroups [])) busyEvents).isSome := by
  decide

/-- Without sweeps and clean-ups every state is settled. -/
theorem undivided_of_single {es : List Event}
    (hes : ∀ e ∈ es, (∀ i scanned, e ≠ .cleanup i scanned) ∧ ∀ input, e ≠ .sweep input)
    (hrun : Run (Steps toStr) w es w') (hw : w.Settled) :
    Run (Guarded Undivided (Steps toStr)) w es w' ∧ w'.Settled := by
  have hstep : ∀ e ∈ es, ∀ u v, Steps toStr u e v → u.Settled → v.Settled :=
    fun e he _ _ => settled_step (hes e he).1 (hes e he).2
  constructor
  · refine hrun.guarded_of_invariant hstep (fun e _ u hu => ⟨fun h => absurd hu.1 h, ?_⟩) hw
    intro i c hc hcleaning
    rw [hu.2 i c hc] at hcleaning
    cases hcleaning
  · induction hrun with
    | nil => exact hw
    | cons hs _ ih =>
      refine ih (fun e he => hes e (List.mem_cons_of_mem _ he)) ?_ ?_
      · exact hstep _ List.mem_cons_self _ _ hs hw
      · exact fun e he => hstep e (List.mem_cons_of_mem _ he)

/-- alice gets the same replies, and her group has the same services. -/
theorem groups_isolated_busy :
    ∃ w₁ w₂, Run (Guarded Undivided (Steps Iroh.hex.toStr)) (Server.init (.new twoGroups []))
        aloneEvents w₁ ∧
      Run (Guarded Undivided (Steps Iroh.hex.toStr)) (Server.init (.new twoGroups []))
        busyEvents w₂ ∧
      SameFor "home" w₁ w₂ := by
  have hinit : (Server.init (.new twoGroups [])).Settled := ⟨rfl, by simp [Server.init]⟩
  have hrun₁ := run_of_exec (Option.some_get exec_aloneEvents).symm
  have hrun₂ := run_of_exec (Option.some_get exec_busyEvents).symm
  obtain ⟨hund₁, hset₁⟩ := undivided_of_single
    (by simp [aloneEvents, joinEvents, registerEvents]) hrun₁ hinit
  obtain ⟨hund₂, hset₂⟩ := undivided_of_single
    (by simp [busyEvents, joinEvents, registerEvents]) hrun₂ hinit
  have hobs₁ : observe (Server.next Iroh.hex.toStr) (Server.outline "token" "home")
      (Server.init (.new twoGroups [])) aloneEvents = homeLabels := rfl
  have hobs₂ : observe (Server.next Iroh.hex.toStr) (Server.outline "token" "home")
      (Server.init (.new twoGroups [])) busyEvents = homeLabels := rfl
  have hiso := (groups_isolated (by decide) (by decide) (.refl _) (.refl _) hrun₁ hrun₂).2.1
    ⟨"home", "token"⟩ (by decide) hund₁ hund₂ hset₁ hset₂ (hobs₁.trans hobs₂.symm)
  exact ⟨_, _, hund₁, hund₂, hiso⟩

end Outline

end MeshlyCore.Control
