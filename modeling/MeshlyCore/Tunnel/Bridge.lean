import MeshlyCore.Lib.Moves
import MeshlyCore.Relay.Copy

/-!
# Bridges

`tunnel::bridge` is tokio's `copy_bidirectional`, and the operation at both ends of a tunnel: two
copy loops with a buffer of 8 KiB in one task. A loop that has come to the end of its source shuts
its writer down at once, whatever the other one does; an error in either of them returns, and drops
both streams, which closes them.

The relay between two bridges joins its loops first and shuts down afterwards (`Relay.Copying`). A
`Hop` of a tunnel is one or the other; `Hop.Sound` is what the neighbours of a hop rely on.
-/

namespace MeshlyCore.Tunnel

open Streams Machine Relay

/-! ## Hops -/

/-- The kinds of hops of a tunnel; the reply of a relay may be throttled. -/
inductive Hop where
  | bridged
  | relayed (throttled : Bool)
  deriving DecidableEq

/-- What happens next in a hop. -/
inductive HopEvent where
  | copy (d : Direction) (a : Act)
  /-- The writer of a direction that has come to its end is shut down. -/
  | shut (d : Direction)
  | close
  /-- A stream of the direction fails, be it because its connection was dropped at the other end. -/
  | breaks (d : Direction)
  deriving DecidableEq

/-- The writer of a direction is shut down. -/
def shutDown (s : Side) : Side := { s with dst := s.dst.finish }

/-- A loop returns an error. -/
def failed (s : Side) : Side := { s with loop := .ended false }

/-- The streams are dropped in the middle of a copy. -/
def abandon (s : Side) : Side where
  src := s.src
  dst := s.dst.finish
  loop := match s.loop with
    | .running _ _ _ => .ended false
    | .ended ok => .ended ok

/-- A direction that has ended and whose writer is shut down. -/
def Done (s : Side) : Prop := s.loop = .ended true ∧ s.dst.finished

instance (s : Side) : Decidable (Done s) := inferInstanceAs (Decidable (_ ∧ _))

/-- The two loops of a bridge copy like the unthrottled ones of the relay. -/
def bridgeMode : Mode := ⟨8 * 1024, false⟩

/-- One step of `bridge`, from the stream `a` (`request`) to `b` and back. -/
def bridge (c : Copying) : HopEvent → Option Copying
  | .copy d a => ((c.side d).next bridgeMode a).map fun s => c.setSide d s
  | .shut d =>
      let s := c.side d
      if s.loop = .ended true ∧ s.dst.finished = false then
        some (c.setSide d (shutDown s))
      else none
  | .close =>
      if c.stage = .joining ∧ Done c.request ∧ Done c.reply then
        some { c with stage := .returned true }
      else none
  | .breaks d =>
      if c.stage = .joining ∧ ¬Done (c.side d) then
        some ⟨abandon c.request, abandon c.reply, .returned false⟩
      else none

def Hop.next : Hop → Copying → HopEvent → Option Copying
  | .bridged, c, e => bridge c e
  | .relayed throttled, c, .copy d a => c.next throttled (.copy d a)
  | .relayed throttled, c, .close => c.next throttled .close
  | .relayed throttled, c, .breaks d => c.next throttled (.breaks d)
  | .relayed _, _, .shut _ => none

/-- How a hop copies in a direction. -/
def Hop.mode : Hop → Direction → Mode
  | .bridged, _ => bridgeMode
  | .relayed throttled, d => Copying.mode throttled d

theorem Hop.capacity_pos (h : Hop) (d : Direction) : 0 < (h.mode d).capacity := by
  cases h with
  | bridged => exact Nat.succ_pos _
  | relayed throttled => cases throttled <;> cases d <;> decide

section Steps

variable {h : Hop} {c c' : Copying} {e : HopEvent}

theorem Hop.next_copy (h : Hop) (c : Copying) (d : Direction) (a : Act) :
    h.next c (.copy d a) = ((c.side d).next (h.mode d) a).map fun s => c.setSide d s := by
  cases h <;> rfl

/-- A hop copies in a direction, shuts a writer down, closes, or breaks. -/
inductive HopMove (h : Hop) (c : Copying) : HopEvent → Copying → Prop
  | copy {d : Direction} {a : Act} {s : Side} (step : (c.side d).next (h.mode d) a = some s) :
      HopMove h c (.copy d a) (c.setSide d s)
  | shut {d : Direction} (kind : h = .bridged) (loop : (c.side d).loop = .ended true)
      (opened : (c.side d).dst.finished = false) :
      HopMove h c (.shut d) (c.setSide d (shutDown (c.side d)))
  | done (kind : h = .bridged) (stage : c.stage = .joining) (done : ∀ d, Done (c.side d)) :
      HopMove h c .close { c with stage := .returned true }
  | close {c' : Copying} {throttled : Bool} (kind : h = .relayed throttled)
      (step : c.close = some c') : HopMove h c .close c'
  | drop {d : Direction} (kind : h = .bridged) (stage : c.stage = .joining) :
      HopMove h c (.breaks d) ⟨abandon c.request, abandon c.reply, .returned false⟩
  | fail {d : Direction} {held : Bytes} {g eof : Bool} {throttled : Bool}
      (kind : h = .relayed throttled) (loop : (c.side d).loop = .running held g eof) :
      HopMove h c (.breaks d) (c.setSide d (failed (c.side d)))

theorem hop_move (hstep : h.next c e = some c') : HopMove h c e c' := by
  cases e with
  | copy d a =>
    rw [Hop.next_copy] at hstep
    obtain ⟨s, hs, rfl⟩ := Option.map_eq_some_iff.1 hstep
    exact .copy hs
  | shut d =>
    cases h with
    | relayed throttled => cases hstep
    | bridged =>
      simp only [Hop.next, bridge] at hstep
      split_ifs at hstep with hcond
      obtain rfl := Option.some.inj hstep
      exact .shut rfl hcond.1 hcond.2
  | close =>
    cases h with
    | relayed throttled => exact .close rfl hstep
    | bridged =>
      simp only [Hop.next, bridge] at hstep
      split_ifs at hstep with hcond
      obtain rfl := Option.some.inj hstep
      refine .done rfl hcond.1 fun d => ?_
      cases d with
      | request => exact hcond.2.1
      | reply => exact hcond.2.2
  | breaks d =>
    cases h with
    | bridged =>
      simp only [Hop.next, bridge] at hstep
      split_ifs at hstep with hcond
      obtain rfl := Option.some.inj hstep
      exact .drop rfl hcond.1
    | relayed throttled =>
      simp only [Hop.next, Copying.next] at hstep
      split at hstep
      · rename_i hrun
        obtain rfl := Option.some.inj hstep
        exact .fail rfl hrun
      · cases hstep

/-! ## What the neighbours of a hop see -/

/-- The code after `join!` leaves the loops alone, and ends sinks. -/
theorem close_moves (hclose : c.close = some c') (d : Direction) :
    (c'.side d).src = (c.side d).src ∧ (c'.side d).loop = (c.side d).loop ∧
      ((c'.side d).dst = (c.side d).dst ∨ (c'.side d).dst = (c.side d).dst.finish) := by
  unfold Copying.close at hclose
  split at hclose
  · split at hclose
    · cases hclose
      exact ⟨rfl, rfl, .inl rfl⟩
    · cases hclose
      cases d <;> exact ⟨rfl, rfl, .inr rfl⟩
    · cases hclose
  · cases hclose
    cases d
    · exact ⟨rfl, rfl, .inl rfl⟩
    · exact ⟨rfl, rfl, .inr rfl⟩
  · cases hclose
    cases d
    · exact ⟨rfl, rfl, .inr rfl⟩
    · exact ⟨rfl, rfl, .inl rfl⟩
  · cases hclose

/-- A sink is ended only after its loop has ended, and both are when the hop has returned. -/
def Hop.Sound : Hop → Copying → Prop
  | .bridged, c => ∀ d, ((c.side d).dst.finished → ∃ ok, (c.side d).loop = .ended ok) ∧
      (c.stage ≠ .joining → (c.side d).dst.finished)
  | .relayed _, c => c.InOrder

theorem Hop.Sound.sealed (hs : h.Sound c) {d : Direction} (hfin : (c.side d).dst.finished) :
    ∃ ok, (c.side d).loop = .ended ok := by
  cases h with
  | bridged => exact (hs d).1 hfin
  | relayed throttled =>
    have hc : c.InOrder := hs
    refine hc.ended (fun hstage => ?_) d
    rw [hc.finished, hstage] at hfin
    cases d <;> cases hfin

/-- A running loop may write. -/
theorem Hop.Sound.opened (hs : h.Sound c) {d : Direction} {held : Bytes} {g eof : Bool}
    (hrun : (c.side d).loop = .running held g eof) : (c.side d).dst.finished = false := by
  rw [← Bool.not_eq_true]
  intro hfin
  obtain ⟨ok, hend⟩ := hs.sealed hfin
  rw [hrun] at hend
  cases hend

/-- What a hop is sound by: its stage, its loops, and the ends of its sinks. -/
theorem Hop.Sound.congr (hs : h.Sound c) (hstage : c'.stage = c.stage)
    (hloop : ∀ d, (c'.side d).loop = (c.side d).loop)
    (hfin : ∀ d, (c'.side d).dst.finished = (c.side d).dst.finished) : h.Sound c' := by
  cases h with
  | bridged =>
    intro d
    rw [hstage, hloop, hfin]
    exact hs d
  | relayed throttled =>
    have hc : c.InOrder := hs
    refine ⟨fun d => ?_, fun hne d => ?_⟩
    · rw [hfin, hstage]
      exact hc.finished d
    · rw [hloop]
      exact hc.ended (hstage ▸ hne) d

theorem side_setSide_cases (c : Copying) (d d' : Direction) (s : Side) :
    (d' = d ∧ (c.setSide d s).side d' = s) ∨ (c.setSide d s).side d' = c.side d' := by
  by_cases hd : d' = d
  · subst hd
    exact .inl ⟨rfl, side_setSide c d' s⟩
  · exact .inr (side_setSide_of_ne c hd s)

/-- **A hop only reads on its sources, and only appends to its sinks and ends them.** -/
theorem hop_ends (hstep : h.next c e = some c') (hs : h.Sound c) (d : Direction) :
    ReaderMoves (c.side d).src (c'.side d).src ∧ WriterMoves (c.side d).dst (c'.side d).dst := by
  have hrefl := And.intro (ReaderMoves.refl (c.side d).src) (WriterMoves.refl (c.side d).dst)
  cases hop_move hstep with
  | @copy d' a s step =>
    rcases side_setSide_cases c d' d s with ⟨rfl, hside⟩ | hside
    · obtain ⟨held, g, eof, hrun⟩ := Copy.running_of_next step
      rw [hside]
      exact ⟨Copy.reader_moves step, Copy.writer_moves step (hs.opened hrun)⟩
    · rwa [hside]
  | @shut d' _ _ _ =>
    rcases side_setSide_cases c d' d (shutDown (c.side d')) with ⟨rfl, hside⟩ | hside
    · rw [hside]
      exact ⟨.refl _, .finish _⟩
    · rwa [hside]
  | done _ _ _ => cases d <;> exact hrefl
  | close _ step =>
    obtain ⟨hsrc, -, hdst | hdst⟩ := close_moves step d
    · rw [hsrc, hdst]
      exact hrefl
    · rw [hsrc, hdst]
      exact ⟨.refl _, .finish _⟩
  | drop _ _ => cases d <;> exact ⟨.refl _, .finish _⟩
  | @fail d' _ _ _ _ _ _ =>
    rcases side_setSide_cases c d' d (failed (c.side d')) with ⟨rfl, hside⟩ | hside
    · rw [hside]
      exact hrefl
    · rwa [hside]

/-- **A hop carries.** -/
theorem hop_carries (hstep : h.next c e = some c') (d : Direction)
    (hc : SideCarries 0 (c.side d)) : SideCarries 0 (c'.side d) := by
  cases hop_move hstep with
  | @copy d' a s step =>
    rcases side_setSide_cases c d' d s with ⟨rfl, hside⟩ | hside
    · rw [hside]
      obtain ⟨⟨l, n, out⟩, hl, rfl⟩ := Option.map_eq_some_iff.1 step
      exact Carries.next hc hl
    · rwa [hside]
  | @shut d' _ _ _ =>
    rcases side_setSide_cases c d' d (shutDown (c.side d')) with ⟨rfl, hside⟩ | hside
    · rw [hside]
      exact Carries.of_written hc rfl
    · rwa [hside]
  | done _ _ _ => cases d <;> exact hc
  | close _ step =>
    obtain ⟨hsrc, hloop, hdst | hdst⟩ := close_moves step d
    all_goals
      unfold SideCarries
      rw [hsrc, hloop, hdst]
      exact hc.of_written rfl
  | drop _ _ =>
    have key : ∀ s : Side, SideCarries 0 s → SideCarries 0 (abandon s) := by
      intro s hs
      obtain ⟨src, dst, l⟩ := s
      cases l with
      | running held g eof => exact (Carries.fail hs).of_written rfl
      | ended ok => exact Carries.of_written hs rfl
    cases d
    · exact key c.request hc
    · exact key c.reply hc
  | @fail d' _ _ _ _ _ _ =>
    rcases side_setSide_cases c d' d (failed (c.side d')) with ⟨rfl, hside⟩ | hside
    · rw [hside]
      exact Carries.fail hc
    · rwa [hside]

theorem hop_sound (hstep : h.next c e = some c') (hs : h.Sound c) : h.Sound c' := by
  cases h with
  | relayed throttled =>
    cases e with
    | copy d a => exact inOrder_step (show CopySteps throttled c (.copy d a) c' from hstep) hs
    | close => exact inOrder_close hstep hs
    | breaks d => exact inOrder_step (show CopySteps throttled c (.breaks d) c' from hstep) hs
    | shut d => cases hstep
  | bridged =>
    cases hop_move hstep with
    | @copy d' a s step =>
      obtain ⟨held, g, eof, hrun⟩ := Copy.running_of_next step
      have hopen : (c.side d').dst.finished = false := hs.opened hrun
      -- The bridge is still copying, or the sink would be ended.
      have hjoin : c.stage = .joining := by
        by_contra hne
        have hfin := (hs d').2 hne
        rw [hopen] at hfin
        cases hfin
      intro d
      rw [stage_setSide]
      refine ⟨?_, fun hne => absurd hjoin hne⟩
      rcases side_setSide_cases c d' d s with ⟨rfl, hside⟩ | hside
      · rw [hside, Copy.finished_of_next step, hopen]
        exact fun hfin => absurd hfin Bool.false_ne_true
      · rw [hside]
        exact (hs d).1
    | @shut d' _ hloop _ =>
      intro d
      rw [stage_setSide]
      rcases side_setSide_cases c d' d (shutDown (c.side d')) with ⟨rfl, hside⟩ | hside
      · rw [hside]
        exact ⟨fun _ => ⟨true, hloop⟩, fun _ => rfl⟩
      · rw [hside]
        exact hs d
    | done _ _ hdone =>
      intro d
      have hd := hdone d
      cases d
      · exact ⟨fun _ => ⟨true, hd.1⟩, fun _ => hd.2⟩
      · exact ⟨fun _ => ⟨true, hd.1⟩, fun _ => hd.2⟩
    | close hkind _ => cases hkind
    | drop _ _ =>
      have key : ∀ s : Side, ∃ ok, (abandon s).loop = .ended ok := by
        intro s
        obtain ⟨src, dst, l⟩ := s
        cases l with
        | running held g eof => exact ⟨false, rfl⟩
        | ended ok => exact ⟨ok, rfl⟩
      intro d
      cases d
      · exact ⟨fun _ => key c.request, fun _ => rfl⟩
      · exact ⟨fun _ => key c.reply, fun _ => rfl⟩
    | fail hkind _ => cases hkind

/-! ## Hops that do not break -/

/-- No error has come up. -/
structure Unbroken (c : Copying) : Prop where
  loop : ∀ d, (c.side d).loop ≠ .ended false
  stage : c.stage ≠ .returned false

theorem hop_unbroken (hstep : h.next c e = some c') (he : ∀ d, e ≠ .breaks d)
    (hu : Unbroken c) : Unbroken c' := by
  cases hop_move hstep with
  | @copy d' a s step =>
    refine ⟨fun d => ?_, by rw [stage_setSide]; exact hu.stage⟩
    rcases side_setSide_cases c d' d s with ⟨rfl, hside⟩ | hside
    · rw [hside]
      exact Copy.loop_ne_failed step
    · rw [hside]
      exact hu.loop d
  | @shut d' _ _ _ =>
    refine ⟨fun d => ?_, by rw [stage_setSide]; exact hu.stage⟩
    rcases side_setSide_cases c d' d (shutDown (c.side d')) with ⟨rfl, hside⟩ | hside
    · rw [hside]
      exact hu.loop d
    · rw [hside]
      exact hu.loop d
  | done _ _ _ =>
    refine ⟨fun d => ?_, by simp⟩
    have hd := hu.loop d
    cases d <;> exact hd
  | close _ step =>
    refine ⟨fun d => ?_, ?_⟩
    · rw [(close_moves step d).2.1]
      exact hu.loop d
    · have hreq := hu.loop .request
      have hrep := hu.loop .reply
      simp only [Copying.side] at hreq hrep
      unfold Copying.close at step
      split at step
      · split at step
        · cases step
          simp
        · rename_i hreq' hrep' hne
          exfalso
          cases hreq'' : c.request.loop <;> cases hrep'' : c.reply.loop <;> simp_all
        · cases step
      · cases step
        simp
      · cases step
        simp
      · cases step
  | @drop d _ _ => exact absurd rfl (he d)
  | @fail d _ _ _ _ _ _ => exact absurd rfl (he d)

/-! ## Directions that are done -/

/-- A sink is ended when its direction is done, unless something broke. -/
theorem Hop.Sound.done (hs : h.Sound c) (hu : Unbroken c) {d : Direction}
    (hfin : (c.side d).dst.finished) : Done (c.side d) := by
  obtain ⟨ok, hloop⟩ := hs.sealed hfin
  cases ok with
  | true => exact ⟨hloop, hfin⟩
  | false => exact absurd hloop (hu.loop d)

/-- What is done was carried, and its source has ended. -/
theorem Done.carried {s : Side} (hd : Done s) (hc : SideCarries 0 s) :
    s.dst.written = s.src.written ∧ s.src.finished := by
  unfold SideCarries at hc
  rw [hd.1] at hc
  exact ⟨hc.written_eq, (hc.atEnd rfl).1⟩

/-! ## What a hop has done -/

def stageRank : Stage → ℕ
  | .joining => 0
  | .shutConsumer => 1
  | .shutProvider => 2
  | .returned _ => 3

/-- What the loops have done, the sinks that are ended, and how far the hop has returned. -/
def progress (c : Copying) : ℕ :=
  c.request.progress + c.reply.progress + c.request.dst.finished.toNat +
    c.reply.dst.finished.toNat + stageRank c.stage

/-- The hop has nothing to do. -/
def Hop.Quiet (h : Hop) (c : Copying) : Prop := ∀ e, (∀ d, e ≠ .breaks d) → h.next c e = none

/-- **A direction at rest** has delivered everything: it waits for its source, or has ended with
it. -/
theorem quiet_side (hq : h.Quiet c) {d : Direction} (hc : SideCarries 0 (c.side d))
    (hok : (c.side d).loop ≠ .ended false) :
    (c.side d).dst.written = (c.side d).src.written ∧
      ((c.side d).loop = .ended true ↔ (c.side d).src.finished) := by
  have hstuck : ∀ a, (c.side d).next (h.mode d) a = none := by
    intro a
    have hnone := hq (.copy d a) (fun _ => by simp)
    rwa [Hop.next_copy, Option.map_eq_none_iff] at hnone
  cases hloop : (c.side d).loop with
  | running held g eof =>
    have hwaits : (c.side d).Waits := by
      by_contra hne
      obtain ⟨a, s, hs⟩ := exists_next (h.capacity_pos d) hloop hne
      rw [hstuck a] at hs
      cases hs
    obtain ⟨⟨g', hwait⟩, hpend, hopen⟩ := hwaits
    unfold SideCarries at hc
    rw [hwait] at hc
    exact ⟨hc.written_eq_of_idle hpend, by simp [hopen]⟩
  | ended ok =>
    cases ok with
    | false => exact absurd hloop hok
    | true =>
      unfold SideCarries at hc
      rw [hloop] at hc
      exact ⟨hc.written_eq, by simp [(hc.atEnd rfl).1]⟩

/-- A bridge at rest has passed on the end of every direction. -/
theorem quiet_bridged (hq : Hop.bridged.Quiet c) (hs : Hop.bridged.Sound c) {d : Direction}
    (hc : SideCarries 0 (c.side d)) (hok : (c.side d).loop ≠ .ended false) :
    (c.side d).dst.finished = (c.side d).src.finished := by
  have hend := (quiet_side hq hc hok).2
  have hsealed := hs.sealed (d := d)
  rw [Bool.eq_iff_iff]
  constructor
  · intro hfin
    obtain ⟨ok, hloop⟩ := hsealed hfin
    cases ok with
    | true => exact hend.1 hloop
    | false => exact absurd hloop hok
  · intro hfin
    by_contra hopen
    have hshut := hq (.shut d) (by simp)
    simp [Hop.next, bridge, hend.2 hfin, hopen] at hshut

end Steps

end MeshlyCore.Tunnel
