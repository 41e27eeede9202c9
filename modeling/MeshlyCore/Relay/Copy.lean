import MeshlyCore.Lib.Bytes
import MeshlyCore.Lib.Pipe

/-!
# The relay's copy

`copy_bidirectional` of `relay.rs`: two copy loops, from the consumer to the provider and back,
joined, and then the shutdown of both writers. `tokio::io::copy` is a loop with a buffer of 8 KiB,
`copy_throttled` one with a buffer of 16 KiB whose writes wait for the token bucket. What a
loop is granted when is up to the bucket, and to whoever changes its rate.

The shutdowns come after the join. So the writer of a direction that has come to its end stays
open as long as the other direction runs (`tunnel::bridge`, on the direct path, closes it at
once), and a provider that answers only when it has seen the end of the request is never
answered to.

**Theorem (`closable_iff`).** The relay can close the writer of a finished direction, without
any step of the other one, exactly when the other direction has ended too; and while the other
direction waits for its peer, the relay does nothing at all.
-/

namespace MeshlyCore.Relay

open Streams Machine

/-! ## `copy_bidirectional` -/

/-- The two directions: consumer to provider, and provider to consumer. -/
inductive Direction where
  | request
  | reply
  deriving DecidableEq

def Direction.other : Direction → Direction
  | .request => .reply
  | .reply => .request

inductive Stage where
  /-- In `join!`. -/
  | joining
  /-- About to shut down the writer to the consumer. -/
  | shutConsumer
  | shutProvider
  | returned (ok : Bool)
  deriving DecidableEq

/-- One side of the copy: where a direction reads, where it writes, and its loop. -/
abbrev Side := Copy UInt8

structure Copying where
  request : Side
  reply : Side
  stage : Stage

/-- What the consumer has written so far may be there already; the stream to the provider is
new. -/
def Copying.start (consumer : Pipe UInt8) : Copying :=
  ⟨⟨consumer, .empty, .start⟩, ⟨.empty, .empty, .start⟩, .joining⟩

namespace Copying

def side (c : Copying) : Direction → Side
  | .request => c.request
  | .reply => c.reply

def setSide (d : Direction) (s : Side) (c : Copying) : Copying :=
  match d with
  | .request => { c with request := s }
  | .reply => { c with reply := s }

/-- The copy of a direction: the request is never throttled. -/
def mode (throttled : Bool) : Direction → Mode
  | .request => ⟨8 * 1024, false⟩
  | .reply => if throttled then ⟨16 * 1024, true⟩ else ⟨8 * 1024, false⟩

end Copying

/-- What happens next: to the streams, by the two peers, or in the relay. -/
inductive CopyEvent where
  /-- The peer a direction reads from writes, is done, or the stream breaks. -/
  | peerWrites (d : Direction) (bytes : Bytes)
  | peerFinishes (d : Direction)
  | breaks (d : Direction)
  /-- The peer a direction writes to reads. -/
  | peerReads (d : Direction) (n : ℕ)
  /-- A copy loop moves on. -/
  | copy (d : Direction) (a : Act)
  /-- The code after `join!` moves on. -/
  | close
  deriving DecidableEq

/-- The steps the relay takes by itself. -/
def CopyEvent.isRelay : CopyEvent → Bool
  | .copy _ _ => true
  | .close => true
  | _ => false

/-- What the peer writes to the source of `d`. -/
def CopyEvent.wrote (d : Direction) : CopyEvent → Bytes
  | .peerWrites d' bytes => if d' = d then bytes else []
  | _ => []

/-- How much the peer reads from the sink of `d`. -/
def CopyEvent.took (d : Direction) : CopyEvent → ℕ
  | .peerReads d' n => if d' = d then n else 0
  | _ => 0

namespace Copying

/-- The code after `join!`: an error returns at once, and drops the streams, which closes them. -/
def close (c : Copying) : Option Copying :=
  match c.stage with
  | .joining =>
      match c.request.loop, c.reply.loop with
      | .ended true, .ended true => some { c with stage := .shutConsumer }
      | .ended _, .ended _ => some
          ⟨{ c.request with dst := c.request.dst.finish },
            { c.reply with dst := c.reply.dst.finish }, .returned false⟩
      | _, _ => none
  | .shutConsumer => some
      { c with reply := { c.reply with dst := c.reply.dst.finish }, stage := .shutProvider }
  | .shutProvider => some
      { c with request := { c.request with dst := c.request.dst.finish }, stage := .returned true }
  | .returned _ => none

def next (throttled : Bool) (c : Copying) : CopyEvent → Option Copying
  | .peerWrites d bytes =>
      let s := c.side d
      if s.src.finished then none else some (c.setSide d { s with src := s.src.write bytes })
  | .peerFinishes d => some (c.setSide d { c.side d with src := (c.side d).src.finish })
  | .breaks d =>
      match (c.side d).loop with
      | .running _ _ _ => some (c.setSide d { c.side d with loop := .ended false })
      | .ended _ => none
  | .peerReads d n =>
      let s := c.side d
      if n ≤ s.dst.pending.length then some (c.setSide d { s with dst := s.dst.take n }) else none
  | .copy d a => ((c.side d).next (mode throttled d) a).map fun s => c.setSide d s
  | .close => c.close

end Copying

abbrev CopySteps (throttled : Bool) : Copying → CopyEvent → Copying → Prop :=
  stepOf (Copying.next throttled)

/-! ## Its steps -/

section Steps

variable {throttled : Bool} {c c' : Copying} {d d' : Direction} {e : CopyEvent}

theorem Direction.eq_or_other (d d' : Direction) : d' = d ∨ d' = d.other := by
  cases d <;> cases d' <;> simp [other]

@[simp] theorem Direction.other_ne (d : Direction) : d.other ≠ d := by
  cases d <;> simp [other]

@[simp] theorem side_setSide (c : Copying) (d : Direction) (s : Side) :
    (c.setSide d s).side d = s := by
  cases d <;> rfl

theorem side_setSide_of_ne (c : Copying) {d d' : Direction} (h : d' ≠ d) (s : Side) :
    (c.setSide d s).side d' = c.side d' := by
  cases d <;> cases d' <;> first | rfl | exact absurd rfl h

@[simp] theorem stage_setSide (c : Copying) (d : Direction) (s : Side) :
    (c.setSide d s).stage = c.stage := by
  cases d <;> rfl

/-- A step of a peer or of a copy loop is about one direction. It leaves the end of the sink and
a loop that has ended alone. -/
theorem next_cases (h : CopySteps throttled c e c') :
    (e = .close ∧ c.close = some c') ∨
    (∃ d s, c' = c.setSide d s ∧ s.dst.finished = (c.side d).dst.finished ∧
      ∀ ok, (c.side d).loop = .ended ok → s.loop = .ended ok) := by
  have h' : c.next throttled e = some c' := h
  cases e with
  | peerWrites d bytes =>
    simp only [Copying.next] at h'
    split_ifs at h'
    exact .inr ⟨d, _, (Option.some.inj h').symm, rfl, fun _ => id⟩
  | peerFinishes d => exact .inr ⟨d, _, (Option.some.inj h').symm, rfl, fun _ => id⟩
  | breaks d =>
    simp only [Copying.next] at h'
    split at h'
    · rename_i hrun
      refine .inr ⟨d, _, (Option.some.inj h').symm, rfl, fun ok hok => ?_⟩
      rw [hrun] at hok
      cases hok
    · cases h'
  | peerReads d n =>
    simp only [Copying.next] at h'
    split_ifs at h'
    exact .inr ⟨d, _, (Option.some.inj h').symm, rfl, fun _ => id⟩
  | copy d a =>
    obtain ⟨s, hs, rfl⟩ := Option.map_eq_some_iff.1 h'
    obtain ⟨⟨l, n, out⟩, hl, rfl⟩ := Option.map_eq_some_iff.1 hs
    refine .inr ⟨d, _, rfl, rfl, fun ok hok => ?_⟩
    rw [hok] at hl
    simp [Loop.next] at hl
  | close => exact .inl ⟨rfl, h'⟩

/-- The code after `join!` leaves what was copied alone. -/
theorem close_side (h : c.close = some c') (d : Direction) :
    (c'.side d).src = (c.side d).src ∧ (c'.side d).loop = (c.side d).loop ∧
      (c'.side d).dst.written = (c.side d).dst.written ∧
      (c'.side d).dst.read = (c.side d).dst.read := by
  unfold Copying.close at h
  split at h
  · split at h
    · cases h
      exact ⟨rfl, rfl, rfl, rfl⟩
    · cases h
      cases d <;> exact ⟨rfl, rfl, rfl, rfl⟩
    · cases h
  · cases h
    cases d <;> exact ⟨rfl, rfl, rfl, rfl⟩
  · cases h
    cases d <;> exact ⟨rfl, rfl, rfl, rfl⟩
  · cases h

/-- **The far ends.** What is written to a source, and how much is read from a sink, is up to the
peers. -/
theorem ends_step (h : CopySteps throttled c e c') (d : Direction) :
    (c'.side d).src.written = (c.side d).src.written ++ e.wrote d ∧
      (c'.side d).dst.read = (c.side d).dst.read + e.took d := by
  have h' : c.next throttled e = some c' := h
  cases e with
  | peerWrites d' bytes =>
    simp only [Copying.next] at h'
    split_ifs at h'
    obtain rfl := Option.some.inj h'
    cases d <;> cases d' <;> simp [Copying.setSide, Copying.side, Pipe.write, CopyEvent.wrote,
      CopyEvent.took]
  | peerFinishes d' =>
    obtain rfl := Option.some.inj h'
    cases d <;> cases d' <;> simp [Copying.setSide, Copying.side, Pipe.finish, CopyEvent.wrote,
      CopyEvent.took]
  | breaks d' =>
    simp only [Copying.next] at h'
    split at h'
    · obtain rfl := Option.some.inj h'
      cases d <;> cases d' <;> simp [Copying.setSide, Copying.side, CopyEvent.wrote,
        CopyEvent.took]
    · cases h'
  | peerReads d' n =>
    simp only [Copying.next] at h'
    split_ifs at h'
    obtain rfl := Option.some.inj h'
    cases d <;> cases d' <;> simp [Copying.setSide, Copying.side, Pipe.take, CopyEvent.wrote,
      CopyEvent.took]
  | copy d' a =>
    obtain ⟨s, hs, rfl⟩ := Option.map_eq_some_iff.1 h'
    obtain ⟨⟨l, n, out⟩, -, rfl⟩ := Option.map_eq_some_iff.1 hs
    cases d <;> cases d' <;> simp [Copying.setSide, Copying.side, Pipe.write, Pipe.take,
      CopyEvent.wrote, CopyEvent.took]
  | close =>
    obtain ⟨hsrc, -, -, hread⟩ := close_side (show c.close = some c' from h') d
    simp [hsrc, hread, CopyEvent.wrote, CopyEvent.took]

/-- The side of the copy carries everything after the first `skip` bytes of its source. -/
def SideCarries (skip : ℕ) (s : Side) : Prop := Carries skip s.src s.dst s.loop

/-- **Every step carries.** -/
theorem carries_step {skip : ℕ} (h : CopySteps throttled c e c')
    (hc : SideCarries skip (c.side d)) : SideCarries skip (c'.side d) := by
  have h' : c.next throttled e = some c' := h
  -- A step in direction `d'` is a step of `d`, or leaves `d` alone.
  have key : ∀ {d' : Direction} {s : Side},
      (SideCarries skip (c.side d') → SideCarries skip s) →
        SideCarries skip ((c.setSide d' s).side d) := by
    intro d' s hs
    by_cases hd : d = d'
    · subst hd
      rw [side_setSide]
      exact hs hc
    · rw [side_setSide_of_ne c hd]
      exact hc
  cases e with
  | peerWrites d' bytes =>
    simp only [Copying.next] at h'
    split_ifs at h' with hfin
    obtain rfl := Option.some.inj h'
    exact key fun hs => Carries.write hs (by simpa using hfin) bytes
  | peerFinishes d' =>
    obtain rfl := Option.some.inj h'
    exact key fun hs => Carries.finish hs
  | breaks d' =>
    simp only [Copying.next] at h'
    split at h'
    · obtain rfl := Option.some.inj h'
      exact key fun hs => Carries.fail hs
    · cases h'
  | peerReads d' n =>
    simp only [Copying.next] at h'
    split_ifs at h'
    obtain rfl := Option.some.inj h'
    exact key fun hs => Carries.of_written hs rfl
  | copy d' a =>
    obtain ⟨s, hs, rfl⟩ := Option.map_eq_some_iff.1 h'
    obtain ⟨⟨l, n, out⟩, hl, rfl⟩ := Option.map_eq_some_iff.1 hs
    exact key fun hs => Carries.next hs hl
  | close =>
    obtain ⟨hsrc, hloop, hdst, -⟩ := close_side (show c.close = some c' from h') d
    unfold SideCarries
    rw [hsrc, hloop]
    exact Carries.of_written hc hdst

/-- The code after `join!` waits for both directions. -/
theorem close_eq_none (hstage : c.stage = .joining) {held : Bytes} {g eof : Bool}
    (hrun : (c.side d).loop = .running held g eof) : c.close = none := by
  cases d with
  | request =>
    have hrun' : c.request.loop = .running held g eof := hrun
    simp [Copying.close, hstage, hrun']
  | reply =>
    have hrun' : c.reply.loop = .running held g eof := hrun
    cases hreq : c.request.loop <;> simp [Copying.close, hstage, hrun', hreq]

end Steps

/-! ## Which writers are closed -/

/-- The direction whose writer the code after `join!` has closed. -/
def Stage.closed : Stage → Direction → Bool
  | .joining, _ => false
  | .shutConsumer, _ => false
  | .shutProvider, d => d = .reply
  | .returned _, _ => true

/-- The writers are closed in order, and only after both loops ended. -/
structure Copying.InOrder (c : Copying) : Prop where
  finished : ∀ d, (c.side d).dst.finished = c.stage.closed d
  ended : c.stage ≠ .joining → ∀ d, ∃ ok, (c.side d).loop = .ended ok

section InOrder

variable {throttled : Bool} {c c' : Copying} {d : Direction} {e : CopyEvent}

theorem inOrder_start (consumer : Pipe UInt8) : (Copying.start consumer).InOrder :=
  ⟨fun d => by cases d <;> rfl, fun h => absurd rfl h⟩

theorem inOrder_close (h : c.close = some c') (hc : c.InOrder) : c'.InOrder := by
  have hfin := hc.finished
  unfold Copying.close at h
  split at h
  · rename_i hstage
    split at h
    · rename_i hreq hrep
      cases h
      refine ⟨fun d => ?_, fun _ d => ?_⟩
      · show (c.side d).dst.finished = false
        rw [hfin d, hstage]
        rfl
      · cases d with
        | request => exact ⟨_, hreq⟩
        | reply => exact ⟨_, hrep⟩
    · rename_i hreq hrep
      cases h
      refine ⟨fun d => by cases d <;> rfl, fun _ d => ?_⟩
      cases d with
      | request => exact ⟨_, hreq⟩
      | reply => exact ⟨_, hrep⟩
    · cases h
  · rename_i hstage
    have hend := hc.ended (by rw [hstage]; simp)
    cases h
    refine ⟨fun d => ?_, fun _ d => ?_⟩
    · cases d with
      | request =>
        have := hfin .request
        rw [hstage] at this
        exact this
      | reply => rfl
    · cases d with
      | request => exact hend .request
      | reply => exact hend .reply
  · rename_i hstage
    have hend := hc.ended (by rw [hstage]; simp)
    cases h
    refine ⟨fun d => ?_, fun _ d => ?_⟩
    · cases d with
      | request => rfl
      | reply =>
        have := hfin .reply
        rw [hstage] at this
        exact this
    · cases d with
      | request => exact hend .request
      | reply => exact hend .reply
  · cases h

theorem inOrder_step (h : CopySteps throttled c e c') (hc : c.InOrder) : c'.InOrder := by
  obtain ⟨-, hclose⟩ | ⟨d, s, rfl, hfin, hend⟩ := next_cases h
  · exact inOrder_close hclose hc
  · refine ⟨fun d' => ?_, fun hstage d' => ?_⟩
    · rw [stage_setSide, ← hc.finished d']
      by_cases hd : d' = d
      · rw [hd, side_setSide, hfin]
      · rw [side_setSide_of_ne c hd]
    · rw [stage_setSide] at hstage
      by_cases hd : d' = d
      · obtain ⟨ok, hok⟩ := hc.ended hstage d
        exact ⟨ok, by rw [hd, side_setSide, hend ok hok]⟩
      · rw [side_setSide_of_ne c hd]
        exact hc.ended hstage d'

theorem inOrder_run {consumer : Pipe UInt8} {es : List CopyEvent}
    (h : Run (CopySteps throttled) (.start consumer) es c) : c.InOrder :=
  h.invariant (fun _ _ _ hs => inOrder_step hs) (inOrder_start consumer)

end InOrder

/-! ## Half-close -/

/-- The relay can close the writer of `d` by itself, without a step of the other direction. -/
def Closable (throttled : Bool) (d : Direction) (c : Copying) : Prop :=
  ∃ es c', Run (CopySteps throttled) c es c' ∧ (∀ e ∈ es, e = .close ∨ ∃ a, e = .copy d a) ∧
    (c'.side d).dst.finished

/-- The writer of `d` is open, and the relay does nothing. -/
def Stuck (throttled : Bool) (d : Direction) (c : Copying) : Prop :=
  (c.side d).dst.finished = false ∧ ∀ e, e.isRelay → c.next throttled e = none

section HalfClose

variable {throttled : Bool} {c c' : Copying} {d : Direction}

theorem capacity_pos (throttled : Bool) (d : Direction) :
    0 < (Copying.mode throttled d).capacity := by
  cases throttled <;> cases d <;> decide

theorem stage_of_running (hc : c.InOrder) {held : Bytes} {g eof : Bool}
    (hrun : (c.side d).loop = .running held g eof) : c.stage = .joining := by
  by_contra hstage
  obtain ⟨ok, hok⟩ := hc.ended hstage d
  rw [hrun] at hok
  cases hok

/-- While the other direction runs, the writer of `d` stays open. -/
theorem open_of_running {es : List CopyEvent} (h : Run (CopySteps throttled) c es c')
    (hown : ∀ e ∈ es, e = .close ∨ ∃ a, e = .copy d a) (hc : c.InOrder)
    (hstage : c.stage = .joining) {held : Bytes} {g eof : Bool}
    (hrun : (c.side d.other).loop = .running held g eof) : (c'.side d).dst.finished = false := by
  induction h with
  | nil c =>
    rw [hc.finished d, hstage]
    rfl
  | @cons c₁ c₂ _ e _ hs _ ih =>
    obtain rfl | ⟨a, rfl⟩ := hown e List.mem_cons_self
    · have hclose : c₁.close = some c₂ := hs
      rw [close_eq_none hstage hrun] at hclose
      cases hclose
    · have hs' : c₁.next throttled (.copy d a) = some c₂ := hs
      obtain ⟨s, -, rfl⟩ := Option.map_eq_some_iff.1 hs'
      refine ih (fun e he => hown e (List.mem_cons_of_mem _ he)) (inOrder_step hs hc) ?_ ?_
      · rw [stage_setSide, hstage]
      · rw [side_setSide_of_ne c₁ d.other_ne, hrun]

theorem not_closable (hc : c.InOrder) {held : Bytes} {g eof : Bool}
    (hrun : (c.side d.other).loop = .running held g eof) : ¬Closable throttled d c := by
  intro hclosable
  obtain ⟨es, c', hes, hown, hfin⟩ := hclosable
  rw [open_of_running hes hown hc (stage_of_running hc hrun) hrun] at hfin
  cases hfin

/-- A direction that has ended and one that waits: nothing moves. -/
theorem stuck_of_waits (hc : c.InOrder) (hd : (c.side d).loop = .ended true)
    (hwaits : (c.side d.other).Waits) : Stuck throttled d c := by
  obtain ⟨g, hother⟩ := hwaits.1
  have hstage : c.stage = .joining := stage_of_running hc hother
  refine ⟨by rw [hc.finished d, hstage]; rfl, fun e he => ?_⟩
  cases e with
  | close => exact close_eq_none hstage hother
  | copy d' a =>
    obtain rfl | rfl := d.eq_or_other d'
    · have hended : (c.side d').loop.next (Copying.mode throttled d') (c.side d').src a = none := by
        rw [hd]
        rfl
      simp [Copying.next, Copy.next, hended]
    · rw [Copying.next, next_eq_none_of_waits hwaits a]
      rfl
  | _ => cases he

/-- When both directions have ended, the code after `join!` runs to its end. -/
theorem returns (hend : ∀ d, ∃ ok, (c.side d).loop = .ended ok) :
    ∃ n c' ok, Run (CopySteps throttled) c (List.replicate n .close) c' ∧
      c'.stage = .returned ok := by
  have hprovider : ∀ c : Copying, c.stage = .shutProvider →
      ∃ n c', Run (CopySteps throttled) c (List.replicate n .close) c' ∧
        c'.stage = .returned true := by
    intro c hstage
    have hclose : c.close = some { c with
        request := { c.request with dst := c.request.dst.finish }, stage := .returned true } := by
      rw [Copying.close, hstage]
    exact ⟨1, _, .cons hclose (.nil _), rfl⟩
  have hconsumer : ∀ c : Copying, c.stage = .shutConsumer →
      ∃ n c', Run (CopySteps throttled) c (List.replicate n .close) c' ∧
        c'.stage = .returned true := by
    intro c hstage
    obtain ⟨n, c', hrun, hc'⟩ := hprovider { c with
      reply := { c.reply with dst := c.reply.dst.finish }, stage := .shutProvider } rfl
    refine ⟨n + 1, c', .cons ?_ hrun, hc'⟩
    show c.close = _
    rw [Copying.close, hstage]
  cases hstage : c.stage with
  | returned ok => exact ⟨0, c, ok, .nil c, hstage⟩
  | shutProvider =>
    obtain ⟨n, c', hrun, hc'⟩ := hprovider c hstage
    exact ⟨n, c', true, hrun, hc'⟩
  | shutConsumer =>
    obtain ⟨n, c', hrun, hc'⟩ := hconsumer c hstage
    exact ⟨n, c', true, hrun, hc'⟩
  | joining =>
    obtain ⟨ok₁, hreq⟩ := hend .request
    obtain ⟨ok₂, hrep⟩ := hend .reply
    have hreq' : c.request.loop = .ended ok₁ := hreq
    have hrep' : c.reply.loop = .ended ok₂ := hrep
    have hfail : ∀ c', c.close = some c' → c'.stage = .returned false →
        ∃ n c' ok, Run (CopySteps throttled) c (List.replicate n .close) c' ∧
          c'.stage = .returned ok :=
      fun c' hclose hc' => ⟨1, c', false, .cons hclose (.nil c'), hc'⟩
    cases ok₁ with
    | false => exact hfail _ (by rw [Copying.close, hstage, hreq', hrep']) rfl
    | true =>
      cases ok₂ with
      | false => exact hfail _ (by rw [Copying.close, hstage, hreq', hrep']) rfl
      | true =>
        obtain ⟨n, c', hrun, hc'⟩ := hconsumer { c with stage := .shutConsumer } rfl
        refine ⟨n + 1, c', true, .cons ?_ hrun, hc'⟩
        show c.close = _
        rw [Copying.close, hstage, hreq', hrep']

/-- **Half-close.** The relay closes the writer of a direction that has come to its end just when
the other direction has ended too. The relay is stuck with it open just when the other one
waits. -/
theorem closable_iff {consumer : Pipe UInt8} {es : List CopyEvent}
    (hrun : Run (CopySteps throttled) (.start consumer) es c)
    (hd : (c.side d).loop = .ended true) :
    (Closable throttled d c ↔ ∃ ok, (c.side d.other).loop = .ended ok) ∧
      (Stuck throttled d c ↔ (c.side d.other).Waits) := by
  have hc : c.InOrder := inOrder_run hrun
  have hboth : ∀ ok, (c.side d.other).loop = .ended ok →
      ∀ d', ∃ ok, (c.side d').loop = .ended ok := by
    intro ok hok d'
    obtain rfl | rfl := d.eq_or_other d'
    · exact ⟨true, hd⟩
    · exact ⟨ok, hok⟩
  constructor
  · constructor
    · intro hclosable
      cases hother : (c.side d.other).loop with
      | ended ok => exact ⟨ok, rfl⟩
      | running held g eof => exact absurd hclosable (not_closable hc hother)
    · intro hother
      obtain ⟨ok, hok⟩ := hother
      obtain ⟨n, c', ok', hrun', hc'⟩ := returns (hboth ok hok)
      refine ⟨_, c', hrun', fun e he => .inl (List.eq_of_mem_replicate he), ?_⟩
      rw [(inOrder_run (hrun.append hrun')).finished d, hc']
      rfl
  · constructor
    · intro hstuck
      obtain ⟨hopen, hnone⟩ := hstuck
      by_contra hwaits
      cases hother : (c.side d.other).loop with
      | running held g eof =>
        obtain ⟨a, s, ha⟩ := exists_next (capacity_pos throttled d.other) hother hwaits
        have hcopy : c.next throttled (.copy d.other a) = some (c.setSide d.other s) := by
          rw [Copying.next, ha]
          rfl
        rw [hnone _ rfl] at hcopy
        cases hcopy
      | ended ok =>
        obtain ⟨n, c', ok', hrun', hc'⟩ := @returns throttled c (hboth ok hother)
        cases n with
        | zero =>
          cases hrun' with
          | nil =>
            rw [hc.finished d, hc'] at hopen
            cases hopen
        | succ n =>
          cases hrun' with
          | cons hs _ =>
            have hclose : c.next throttled .close = some _ := hs
            rw [hnone _ rfl] at hclose
            cases hclose
    · exact stuck_of_waits hc hd

end HalfClose

/-- The consumer writes a request and is done; the relay forwards it, and its end. -/
def oneWayEvents : List CopyEvent :=
  [.peerWrites .request [0x68, 0x69], .peerFinishes .request, .copy .request (.read 2),
    .copy .request (.write 2), .copy .request .eof, .copy .request .flush]

def oneWay : Copying where
  request := ⟨⟨[0x68, 0x69], 2, true⟩, ⟨[0x68, 0x69], 0, false⟩, .ended true⟩
  reply := ⟨.empty, .empty, .start⟩
  stage := .joining

theorem run_oneWay : Run (CopySteps false) (.start .empty) oneWayEvents oneWay :=
  run_of_exec rfl

/-- Once the provider is done too, the relay closes the writer to it. -/
theorem closable_bothEnded :
    Closable false .request { oneWay with reply := ⟨⟨[], 0, true⟩, .empty, .ended true⟩ } := by
  have hrest : Run (CopySteps false) oneWay
      [.peerFinishes .reply, .copy .reply .eof, .copy .reply .flush]
      { oneWay with reply := ⟨⟨[], 0, true⟩, .empty, .ended true⟩ } := run_of_exec rfl
  exact ((closable_iff (run_oneWay.append hrest) rfl).1).2 ⟨true, rfl⟩

/-- The provider waits for the end of the request, the relay for the provider. -/
theorem oneWay_stuck :
    Run (CopySteps false) (.start .empty) oneWayEvents oneWay ∧
      oneWay.request.src.finished ∧ oneWay.request.loop = .ended true ∧ oneWay.reply.Waits ∧
      ¬Closable false .request oneWay ∧ Stuck false .request oneWay := by
  have hc : oneWay.InOrder := inOrder_run run_oneWay
  have hwaits : oneWay.reply.Waits := ⟨⟨false, rfl⟩, rfl, rfl⟩
  have hother : (oneWay.side Direction.request.other).loop = .running [] false false := rfl
  exact ⟨run_oneWay, rfl, rfl, hwaits, not_closable hc hother,
    stuck_of_waits hc (d := .request) rfl hwaits⟩

end MeshlyCore.Relay
