import MeshlyCore.Lib.Moves
import MeshlyCore.RateLimit.Window
import MeshlyCore.Relay.Copy

/-!
# The throttled copy

`copy_throttled` with its bucket: the gated loop of the relay's reply, whose grants are those of a
`Meter`. It reads, acquires a token for every byte it has read, and writes them all before it reads
again. Each event has its time; the provider writes and the consumer reads when they like.

**Theorem (`throttled_refines`).** To the rest of the relay, a throttled copy is a gated one.

**Theorem (`sent_le`).** While the rate stays between `1` and `R`, the consumer is sent at most
`R * (T + 1)` bytes in any `T` seconds, and one read buffer more: what was granted before them and
is written in them.
-/

namespace MeshlyCore.Relay

open Streams Machine
open RateLimit (Tick Meter MeterEvent Metered Rated)

/-- The copy, its bucket, and how much was written when, latest first. -/
structure Throttled where
  side : Side
  meter : Meter
  sent : List (ℚ × ℕ)

inductive ThrottledEvent where
  | providerWrites (bytes : Bytes)
  | providerFinishes
  | consumerReads (n : ℕ)
  /-- The loop reads, writes, or comes to its end. -/
  | copy (now : ℚ) (a : Act)
  /-- `acquire` is called for what was read, and a pass of its loop. -/
  | acquire (t : Tick)
  | pass (t : Tick)

/-- How much is written. -/
def sentBy : Act → ℕ
  | .write n => n
  | _ => 0

namespace Throttled

def start (t : Tick) : Throttled := ⟨⟨.empty, .empty, .start⟩, .start t, []⟩

/-- The loop goes on when `acquire` has returned. -/
def settle (s : Throttled) (m : Meter) : Option Throttled :=
  match m.pending with
  | none => (s.side.next (Copying.mode true .reply) .grant).map fun side =>
      { s with side, meter := m }
  | some _ => some { s with meter := m }

def next (s : Throttled) : ThrottledEvent → Option Throttled
  | .providerWrites bytes =>
      if s.side.src.finished then none
      else some { s with side := { s.side with src := s.side.src.write bytes } }
  | .providerFinishes => some { s with side := { s.side with src := s.side.src.finish } }
  | .consumerReads n =>
      if n ≤ s.side.dst.pending.length then
        some { s with side := { s.side with dst := s.side.dst.take n } }
      else none
  | .copy now a =>
      if a ≠ .grant ∧ s.meter.pending = none ∧ s.meter.clock ≤ now then
        (s.side.next (Copying.mode true .reply) a).map fun side =>
          ⟨side, { s.meter with clock := now }, (now, sentBy a) :: s.sent⟩
      else none
  | .acquire t =>
      match s.side.loop with
      | .running (x :: xs) false _ =>
          (s.meter.next (.call t (x :: xs).length)).bind s.settle
      | _ => none
  | .pass t => (s.meter.next (.pass t)).bind s.settle

end Throttled

abbrev ThrottledSteps : Throttled → ThrottledEvent → Throttled → Prop := stepOf Throttled.next

/-! ## What a step does -/

section Steps

variable {s s' : Throttled} {e : ThrottledEvent} {m m' : Meter} {R a b : ℚ}

/-- A call of `acquire` returns what it was called for, or goes on. -/
theorem meter_settles {e : MeterEvent} (h : m.next e = some m') :
    m.clock ≤ e.tick.now ∧ m'.clock = e.tick.now ∧
    ∃ n, ((∃ t, e = .call t n ∧ m.pending = none) ∨ ∃ bps, m.pending = some (bps, n)) ∧
      ((m'.pending = none ∧ m'.granted = (e.tick.now, n) :: m.granted) ∨
        ((∃ bps, m'.pending = some (bps, n)) ∧ m'.granted = m.granted)) := by
  unfold Meter.next at h
  split at h
  case isFalse => cases h
  rename_i hclock
  refine ⟨hclock, ?_⟩
  split at h
  · rename_i t n hpend
    split at h
    · obtain rfl := Option.some.inj h
      exact ⟨rfl, n, .inl ⟨t, rfl, hpend⟩, .inl ⟨hpend, rfl⟩⟩
    · obtain rfl := Option.some.inj h
      exact ⟨rfl, n, .inl ⟨t, rfl, hpend⟩, .inr ⟨⟨t.rate, rfl⟩, rfl⟩⟩
  · rename_i t bps n hpend
    split at h
    · obtain rfl := Option.some.inj h
      exact ⟨rfl, n, .inr ⟨bps, hpend⟩, .inl ⟨rfl, rfl⟩⟩
    · obtain rfl := Option.some.inj h
      exact ⟨rfl, n, .inr ⟨bps, hpend⟩, .inr ⟨⟨bps, hpend⟩, rfl⟩⟩
  · cases h

/-- A grant is for a loop with something in its hands. -/
theorem side_grant {side side' : Side} {mode : Mode} (h : side.next mode .grant = some side') :
    ∃ held eof, side.loop = .running held false eof ∧
      side' = { side with loop := .running held true eof } := by
  obtain ⟨⟨l, n, out⟩, hl, rfl⟩ := Option.map_eq_some_iff.1 h
  rcases loop_cases hl with ⟨_, _, -, ha, -⟩ | ⟨_, _, -, ha, -⟩ |
      ⟨held, eof, heq, -, rfl, rfl, rfl⟩ | ⟨_, _, _, -, ha, -⟩ | ⟨_, -, ha, -⟩
  · cases ha
  · cases ha
  · exact ⟨held, eof, heq, by simp [Pipe.take, Pipe.write]⟩
  · cases ha
  · cases ha

/-- The clock and the rate an event finds in the bucket. -/
def ThrottledEvent.tick : ThrottledEvent → Option Tick
  | .acquire t => some t
  | .pass t => some t
  | _ => none

/-- What is in the hands of the loop fits its buffer, and a pending call is for all of it. -/
structure InStep (s : Throttled) : Prop where
  held_le : ∀ held g eof, s.side.loop = .running held g eof → held.length ≤ 16 * 1024
  pending : ∀ bps n, s.meter.pending = some (bps, n) →
    ∃ held eof, s.side.loop = .running held false eof ∧ held.length = n

/-- The peers move, the loop does, or `acquire` grants all that was read or waits. -/
inductive ThrottledMove (s : Throttled) : ThrottledEvent → Throttled → Prop
  | peers {e : ThrottledEvent} {side : Side} (loop : side.loop = s.side.loop)
      (written : side.dst.written = s.side.dst.written) : ThrottledMove s e { s with side }
  | copy {now : ℚ} {act : Act} {side : Side} (act_ne : act ≠ .grant)
      (free : s.meter.pending = none) (later : s.meter.clock ≤ now)
      (step : s.side.next (Copying.mode true .reply) act = some side) :
      ThrottledMove s (.copy now act)
        ⟨side, { s.meter with clock := now }, (now, sentBy act) :: s.sent⟩
  | granted {e : ThrottledEvent} {me : MeterEvent} {m : Meter} {held : Bytes} {eof : Bool}
      (tick : e.tick = some me.tick) (step : s.meter.next me = some m)
      (loop : s.side.loop = .running held false eof) (free : m.pending = none)
      (grant : m.granted = (me.tick.now, held.length) :: s.meter.granted) :
      ThrottledMove s e
        { s with side := { s.side with loop := .running held true eof }, meter := m }
  | waits {e : ThrottledEvent} {me : MeterEvent} {m : Meter} {held : Bytes} {eof : Bool} {bps : ℕ}
      (tick : e.tick = some me.tick) (step : s.meter.next me = some m)
      (loop : s.side.loop = .running held false eof)
      (pending : m.pending = some (bps, held.length)) (same : m.granted = s.meter.granted) :
      ThrottledMove s e { s with meter := m }

/-- `acquire` is called for what the loop holds, or in the middle of such a call. -/
theorem settle_move {me : MeterEvent} {held : Bytes} {eof : Bool}
    (htick : e.tick = some me.tick) (hstep : s.meter.next me = some m)
    (hloop : s.side.loop = .running held false eof)
    (hcall : ∀ t n, me = .call t n → n = held.length)
    (hpend : ∀ bps n, s.meter.pending = some (bps, n) → n = held.length)
    (hsettle : s.settle m = some s') : ThrottledMove s e s' := by
  obtain ⟨-, -, n, hn, hcase⟩ := meter_settles hstep
  obtain rfl : n = held.length := by
    rcases hn with ⟨t, he, -⟩ | ⟨bps, hp⟩
    · exact hcall t n he
    · exact hpend bps n hp
  unfold Throttled.settle at hsettle
  rcases hcase with ⟨hfree, hgrant⟩ | ⟨⟨bps, hp⟩, hsame⟩
  · rw [hfree] at hsettle
    obtain ⟨side, hside, rfl⟩ := Option.map_eq_some_iff.1 hsettle
    obtain ⟨held', eof', hrun, rfl⟩ := side_grant hside
    rw [hloop] at hrun
    cases hrun
    exact .granted htick hstep hloop hfree hgrant
  · rw [hp] at hsettle
    obtain rfl := Option.some.inj hsettle
    exact .waits htick hstep hloop hp hsame

theorem throttled_move (h : ThrottledSteps s e s') (hi : InStep s) : ThrottledMove s e s' := by
  have h' : s.next e = some s' := h
  cases e with
  | providerWrites bytes =>
    simp only [Throttled.next] at h'
    split_ifs at h'
    obtain rfl := Option.some.inj h'
    exact .peers rfl rfl
  | providerFinishes =>
    obtain rfl := Option.some.inj h'
    exact .peers rfl rfl
  | consumerReads n =>
    simp only [Throttled.next] at h'
    split_ifs at h'
    obtain rfl := Option.some.inj h'
    exact .peers rfl rfl
  | copy now act =>
    simp only [Throttled.next] at h'
    split_ifs at h' with hcond
    obtain ⟨side, hside, rfl⟩ := Option.map_eq_some_iff.1 h'
    exact .copy hcond.1 hcond.2.1 hcond.2.2 hside
  | acquire t =>
    simp only [Throttled.next] at h'
    split at h'
    · rename_i x xs eof hloop
      obtain ⟨m, hm, hsettle⟩ := Option.bind_eq_some_iff.1 h'
      refine settle_move rfl hm hloop (fun t' n he => ?_) (fun bps n hp => ?_) hsettle
      · cases he
        rfl
      · obtain ⟨held, eof', hrun, rfl⟩ := hi.pending bps n hp
        rw [hloop] at hrun
        cases hrun
        rfl
    · cases h'
  | pass t =>
    obtain ⟨m, hm, hsettle⟩ := Option.bind_eq_some_iff.1 h'
    obtain ⟨-, -, n, hn, -⟩ := meter_settles hm
    obtain ⟨bps, hp⟩ := hn.resolve_left fun hcall => by
      obtain ⟨t', he, -⟩ := hcall
      cases he
    obtain ⟨held, eof, hrun, rfl⟩ := hi.pending bps n hp
    refine settle_move rfl hm hrun (fun t' n' he => by cases he) (fun bps' n' hp' => ?_) hsettle
    rw [hp] at hp'
    cases hp'
    rfl

theorem inStep_step (h : ThrottledSteps s e s') (hi : InStep s) : InStep s' := by
  cases throttled_move h hi with
  | @peers _ side loop _ =>
    refine ⟨fun held g eof hrun => hi.held_le held g eof (loop ▸ hrun), fun bps n hp => ?_⟩
    obtain ⟨held, eof, hrun, hn⟩ := hi.pending bps n hp
    exact ⟨held, eof, loop.trans hrun, hn⟩
  | @copy now act side act_ne free later step =>
    refine ⟨fun held g eof hrun => ?_, fun bps n hp => ?_⟩
    · obtain ⟨⟨l, n, out⟩, hl, rfl⟩ := Option.map_eq_some_iff.1 step
      obtain rfl : l = .running held g eof := hrun
      rcases loop_cases hl with ⟨held', g', heq, -, -, -, hfits, hl', -⟩ |
          ⟨held', g', heq, -, -, -, hl', -⟩ | ⟨held', eof', heq, -, hl', -⟩ |
          ⟨held', eof', k, heq, -, -, hl', -⟩ | ⟨g', heq, -, hl', -⟩
      · cases hl'
        simp only [Copying.mode, Mode.Fits, if_true] at hfits
        rw [hfits.1, List.nil_append, List.length_take]
        omega
      · cases hl'
        exact hi.held_le _ _ _ heq
      · cases hl'
        exact hi.held_le _ _ _ heq
      · cases hl'
        have hle := hi.held_le _ _ _ heq
        rw [List.length_drop]
        omega
      · cases hl'
    · have hp' : s.meter.pending = some (bps, n) := hp
      rw [free] at hp'
      cases hp'
  | @granted _ me m held eof tick step loop free grant =>
    refine ⟨fun held' g eof' hrun => ?_, fun bps n hp => ?_⟩
    · cases hrun
      exact hi.held_le _ _ _ loop
    · have hp' : m.pending = some (bps, n) := hp
      rw [free] at hp'
      cases hp'
  | @waits _ me m held eof bps tick step loop pending same =>
    refine ⟨hi.held_le, fun bps' n hp => ?_⟩
    have hp' : m.pending = some (bps', n) := hp
    rw [pending] at hp'
    cases hp'
    exact ⟨held, eof, loop, rfl⟩

theorem inStep_start (t : Tick) : InStep (.start t) := by
  refine ⟨fun held g eof hrun => ?_, fun bps n hp => by cases hp⟩
  cases hrun
  exact Nat.zero_le _

/-! ## Refinement -/

/-- A copy loop moves in the relay. -/
theorem copy_reply {c : Copying} {side : Side} {act : Act} (hc : c.reply = s.side)
    (hstep : s.side.next (Copying.mode true .reply) act = some side) :
    ∃ cs c', Run (CopySteps true) c cs c' ∧ c'.reply = side := by
  refine ⟨[.copy .reply act], c.setSide .reply side, .cons ?_ (.nil _), rfl⟩
  show (c.reply.next (Copying.mode true .reply) act).map _ = _
  rw [hc, hstep]
  rfl

theorem settle_refines {c : Copying} (hc : c.reply = s.side) (hsettle : s.settle m = some s') :
    ∃ cs c', Run (CopySteps true) c cs c' ∧ c'.reply = s'.side := by
  unfold Throttled.settle at hsettle
  split at hsettle
  · obtain ⟨side, hside, rfl⟩ := Option.map_eq_some_iff.1 hsettle
    exact copy_reply hc hside
  · obtain rfl := Option.some.inj hsettle
    exact ⟨[], c, .nil c, hc⟩

theorem refines_step (h : ThrottledSteps s e s') {c : Copying} (hc : c.reply = s.side) :
    ∃ cs c', Run (CopySteps true) c cs c' ∧ c'.reply = s'.side := by
  have h' : s.next e = some s' := h
  have hone : ∀ ce side, c.next true ce = some (c.setSide .reply side) → s'.side = side →
      ∃ cs c', Run (CopySteps true) c cs c' ∧ c'.reply = s'.side :=
    fun ce side hnext hside => ⟨[ce], c.setSide .reply side, .cons hnext (.nil _), hside.symm⟩
  cases e with
  | providerWrites bytes =>
    simp only [Throttled.next] at h'
    split_ifs at h' with hfin
    obtain rfl := Option.some.inj h'
    exact hone (.peerWrites .reply bytes) _ (by simp [Copying.next, Copying.side, hc, hfin]) rfl
  | providerFinishes =>
    obtain rfl := Option.some.inj h'
    exact hone (.peerFinishes .reply) _ (by simp [Copying.next, Copying.side, hc]) rfl
  | consumerReads n =>
    simp only [Throttled.next] at h'
    split_ifs at h' with hn
    obtain rfl := Option.some.inj h'
    exact hone (.peerReads .reply n) _ (by simp [Copying.next, Copying.side, hc, hn]) rfl
  | copy now act =>
    simp only [Throttled.next] at h'
    split_ifs at h' with hcond
    obtain ⟨side, hside, rfl⟩ := Option.map_eq_some_iff.1 h'
    exact copy_reply hc hside
  | acquire t =>
    simp only [Throttled.next] at h'
    split at h'
    · obtain ⟨m, -, hsettle⟩ := Option.bind_eq_some_iff.1 h'
      exact settle_refines hc hsettle
    · cases h'
  | pass t =>
    obtain ⟨m, -, hsettle⟩ := Option.bind_eq_some_iff.1 h'
    exact settle_refines hc hsettle

/-- **A throttled copy is a gated one**: whatever the rate is and becomes, the relay's copy has a
run to the same reply. -/
theorem throttled_refines {t : Tick} {es : List ThrottledEvent}
    (hrun : Run ThrottledSteps (.start t) es s) :
    ∃ cs, ∃ c : Copying, Run (CopySteps true) (.start .empty) cs c ∧ c.reply = s.side :=
  hrun.simulates (R := fun s (c : Copying) => c.reply = s.side)
    (fun _ _ _ _ hstep hc => refines_step hstep hc) rfl

/-! ## What is sent in a window -/

namespace Throttled

/-- The bytes written to the consumer between `a` and `b`. -/
def sentIn (a b : ℚ) (s : Throttled) : ℕ :=
  ((s.sent.filter fun w => a ≤ w.1 ∧ w.1 ≤ b).map (·.2)).sum

/-- The bytes granted and not yet written. -/
def unwritten (s : Throttled) : ℕ :=
  match s.side.loop with
  | .running held true _ => held.length
  | _ => 0

end Throttled

theorem sentIn_cons {t : ℚ} {n : ℕ} (h : s'.sent = (t, n) :: s.sent) :
    s'.sentIn a b = (if a ≤ t ∧ t ≤ b then n else 0) + s.sentIn a b := by
  unfold Throttled.sentIn
  rw [h, List.filter_cons]
  by_cases ht : a ≤ t ∧ t ≤ b
  · simp [ht]
  · simp [ht]

/-- What is written was granted. -/
theorem unwritten_copy {act : Act} {side : Side} (hact : act ≠ .grant)
    (hstep : s.side.next (Copying.mode true .reply) act = some side) (hs : s'.side = side) :
    s'.unwritten + sentBy act ≤ s.unwritten := by
  obtain ⟨⟨l, n, out⟩, hl, rfl⟩ := Option.map_eq_some_iff.1 hstep
  have hloop : s'.side.loop = l := by rw [hs]
  unfold Throttled.unwritten
  rw [hloop]
  rcases loop_cases hl with ⟨held, g, heq, rfl, -, -, -, rfl, -⟩ |
      ⟨held, g, heq, rfl, -, -, rfl, -⟩ | ⟨_, _, -, rfl, -⟩ |
      ⟨held, eof, k, heq, rfl, hk, rfl, -⟩ | ⟨g, heq, rfl, rfl, -⟩
  · simp [Copying.mode, sentBy]
  · rw [heq]
    cases g <;> simp [sentBy]
  · exact absurd rfl hact
  · rw [heq]
    simp only [sentBy, List.length_drop]
    omega
  · simp [sentBy]

/-- What is sent in the window was granted in it, or was in the buffer before. -/
structure Paid (a b : ℚ) (s : Throttled) : Prop where
  before : s.meter.clock < a → s.sentIn a b = 0
  inside : s.meter.clock ≤ b →
    s.sentIn a b + s.unwritten ≤ s.meter.grantedIn a b + 16 * 1024
  after : s.sentIn a b ≤ s.meter.grantedIn a b + 16 * 1024

namespace Paid

variable {now : ℚ} {n : ℕ}

/-- Bytes leave the buffer. -/
theorem write (hp : Paid a b s) (hle : s.meter.clock ≤ now) (hclock : s'.meter.clock = now)
    (hsent : s'.sent = (now, n) :: s.sent) (hgrant : s'.meter.granted = s.meter.granted)
    (hun : s'.unwritten + n ≤ s.unwritten) : Paid a b s' := by
  have hs := sentIn_cons (a := a) (b := b) hsent
  have hg := RateLimit.grantedIn_congr (a := a) (b := b) hgrant
  refine ⟨fun hlt => ?_, fun hb => ?_, ?_⟩
  · rw [hclock] at hlt
    rw [hs, if_neg fun hin => absurd hin.1 (not_le.2 hlt), hp.before (lt_of_le_of_lt hle hlt)]
  · rw [hclock] at hb
    have := hp.inside (hle.trans hb)
    rw [hs, hg]
    split_ifs <;> omega
  · rw [hs, hg]
    split_ifs with hin
    · have := hp.inside (hle.trans hin.2)
      omega
    · rw [Nat.zero_add]
      exact hp.after

/-- The whole buffer is granted. -/
theorem grant (hp : Paid a b s) (hle : s.meter.clock ≤ now) (hclock : s'.meter.clock = now)
    (hsent : s'.sent = s.sent) (hgrant : s'.meter.granted = (now, n) :: s.meter.granted)
    (hun : s'.unwritten = n) (hn : n ≤ 16 * 1024) : Paid a b s' := by
  have hs : s'.sentIn a b = s.sentIn a b := by rw [Throttled.sentIn, Throttled.sentIn, hsent]
  have hg := RateLimit.grantedIn_cons (a := a) (b := b) hgrant
  have hafter := hp.after
  refine ⟨fun hlt => ?_, fun hb => ?_, ?_⟩
  · rw [hclock] at hlt
    rw [hs]
    exact hp.before (lt_of_le_of_lt hle hlt)
  · rw [hclock] at hb
    rw [hs, hg, hun]
    by_cases ha : a ≤ now
    · rw [if_pos ⟨ha, hb⟩]
      omega
    · rw [hp.before (lt_of_le_of_lt hle (not_le.1 ha))]
      omega
  · rw [hs, hg]
    omega

/-- Only the clock moves on. -/
theorem wait (hp : Paid a b s) (hle : s.meter.clock ≤ s'.meter.clock) (hsent : s'.sent = s.sent)
    (hgrant : s'.meter.granted = s.meter.granted) (hun : s'.unwritten = s.unwritten) :
    Paid a b s' := by
  have hs : s'.sentIn a b = s.sentIn a b := by rw [Throttled.sentIn, Throttled.sentIn, hsent]
  have hg := RateLimit.grantedIn_congr (a := a) (b := b) hgrant
  refine ⟨fun hlt => ?_, fun hb => ?_, ?_⟩
  · rw [hs]
    exact hp.before (lt_of_le_of_lt hle hlt)
  · rw [hs, hg, hun]
    exact hp.inside (hle.trans hb)
  · rw [hs, hg]
    exact hp.after

end Paid

theorem paid_step (h : ThrottledSteps s e s') (hi : InStep s) (hp : Paid a b s) :
    Paid a b s' := by
  cases throttled_move h hi with
  | @peers _ side loop _ =>
    refine hp.wait le_rfl rfl rfl ?_
    simp only [Throttled.unwritten, loop]
  | @copy now act side act_ne free later step =>
    exact hp.write later rfl rfl rfl (unwritten_copy act_ne step rfl)
  | @granted _ me m held eof tick step loop free grant =>
    obtain ⟨hle, hclock, -⟩ := meter_settles step
    exact hp.grant hle hclock rfl grant rfl (hi.held_le _ _ _ loop)
  | @waits _ me m held eof bps tick step loop pending same =>
    obtain ⟨hle, hclock, -⟩ := meter_settles step
    exact hp.wait (hle.trans hclock.ge) rfl same rfl

/-- The rates that an event finds are between `1` and `R`. -/
def RatedCopy (R : ℚ) (_ : Throttled) (e : ThrottledEvent) : Prop :=
  ∀ t, e.tick = some t → 1 ≤ t.rate ∧ (t.rate : ℚ) ≤ R

theorem metered_throttled (h : Guarded (RatedCopy R) ThrottledSteps s e s') (hi : InStep s)
    (hm : Metered R a b s.meter) : Metered R a b s'.meter := by
  obtain ⟨hrated, hstep⟩ := h
  cases throttled_move hstep hi with
  | peers _ _ => exact hm
  | copy _ _ later _ => exact hm.tick rfl rfl later
  | granted tick step _ _ _ => exact RateLimit.metered_step ⟨hrated _ tick, step⟩ hm
  | waits tick step _ _ _ => exact RateLimit.metered_step ⟨hrated _ tick, step⟩ hm

/-- What was sent is what is in the consumer's stream. -/
theorem sent_step (h : ThrottledSteps s e s') (hi : InStep s)
    (hs : (s.sent.map (·.2)).sum = s.side.dst.written.length) :
    (s'.sent.map (·.2)).sum = s'.side.dst.written.length := by
  cases throttled_move h hi with
  | @peers _ side _ written =>
    show (s.sent.map (·.2)).sum = side.dst.written.length
    rw [hs, written]
  | @copy now act side act_ne free later step =>
    obtain ⟨⟨l, n, out⟩, hl, rfl⟩ := Option.map_eq_some_iff.1 step
    have hout : out.length = sentBy act := by
      rcases loop_cases hl with ⟨_, _, -, rfl, -, -, -, -, rfl⟩ | ⟨_, _, -, rfl, -, -, -, -, rfl⟩ |
          ⟨_, _, -, rfl, -, -, rfl⟩ | ⟨_, _, k, -, rfl, hk, -, -, rfl⟩ | ⟨_, -, rfl, -, -, rfl⟩
      · rfl
      · rfl
      · rfl
      · rw [List.length_take, min_eq_left hk]
        rfl
      · rfl
    show (((now, sentBy act) :: s.sent).map (·.2)).sum = (s.side.dst.written ++ out).length
    rw [List.map_cons, List.sum_cons, hs, List.length_append, hout, Nat.add_comm]
  | granted _ _ _ _ _ => exact hs
  | waits _ _ _ _ _ => exact hs

/-- What holds in every state of a throttled copy. -/
structure Accounted (R a b : ℚ) (s : Throttled) : Prop where
  inStep : InStep s
  paid : Paid a b s
  metered : Metered R a b s.meter
  sent : (s.sent.map (·.2)).sum = s.side.dst.written.length

theorem accounted_start {t : Tick} (hR : (t.rate : ℚ) ≤ R) : Accounted R a b (.start t) :=
  ⟨inStep_start t, ⟨fun _ => rfl, fun _ => Nat.zero_le _, Nat.zero_le _⟩,
    RateLimit.metered_start hR, rfl⟩

theorem accounted_step (h : Guarded (RatedCopy R) ThrottledSteps s e s')
    (ha : Accounted R a b s) : Accounted R a b s' :=
  ⟨inStep_step h.2 ha.inStep, paid_step h.2 ha.inStep ha.paid,
    metered_throttled h ha.inStep ha.metered, sent_step h.2 ha.inStep ha.sent⟩

/-- **The bandwidth of a relay.** However the provider writes, the consumer reads, the rate moves
between `1` and `R` and the clock advances, the consumer is sent at most `R * (T + 1)` bytes in any
`T` seconds, and one buffer. -/
theorem sent_le {t₀ : Tick} (hR : (t₀.rate : ℚ) ≤ R) {es : List ThrottledEvent}
    (hrun : Run (Guarded (RatedCopy R) ThrottledSteps) (.start t₀) es s) (a : ℚ) {T : ℚ}
    (hT : 0 ≤ T) :
    (s.sent.map (·.2)).sum = s.side.dst.written.length ∧
      (s.sentIn a (a + T) : ℚ) ≤ R * (T + 1) + 16 * 1024 := by
  have ha : Accounted R a (a + T) s :=
    hrun.invariant (fun _ _ _ hs ha => accounted_step hs ha) (accounted_start hR)
  have hpaid : (s.sentIn a (a + T) : ℚ) ≤ s.meter.grantedIn a (a + T) + 16 * 1024 := by
    exact_mod_cast ha.paid.after
  have hgranted := ha.metered.grantedIn_le hT
  exact ⟨ha.sent, by linarith⟩

/-- Two bytes, at one byte a second: the second second pays for the second byte. -/
def trickle : List ThrottledEvent :=
  [.providerWrites [104, 105], .copy 0 (.read 1), .acquire ⟨1, 0⟩, .pass ⟨1, 0⟩,
    .copy 0 (.write 1), .copy 0 (.read 1), .acquire ⟨1, 0⟩, .pass ⟨1, 0⟩, .pass ⟨1, 1⟩,
    .copy 1 (.write 1)]

theorem exec_trickle : ((exec Throttled.next (.start ⟨1, 0⟩) trickle).map
    fun s => s.side.dst.written) = some [104, 105] := by
  decide +kernel

theorem sent_trickle : ∃ s, Run (Guarded (RatedCopy 1) ThrottledSteps) (.start ⟨1, 0⟩) trickle s ∧
    s.side.dst.written = [104, 105] ∧ (s.sentIn 0 (0 + 1) : ℚ) ≤ 1 * (1 + 1) + 16 * 1024 := by
  obtain ⟨s, hs, hwritten⟩ := Option.map_eq_some_iff.1 exec_trickle
  have hrated : ∀ e ∈ trickle, ∀ s, RatedCopy 1 s e := by
    simp [trickle, RatedCopy, ThrottledEvent.tick]
  have hrun := (run_of_exec hs).guarded hrated
  exact ⟨s, hrun, hwritten, (sent_le (by norm_num) hrun 0 (by norm_num)).2⟩

theorem trickle_refines : ∃ cs, ∃ c : Copying, Run (CopySteps true) (.start .empty) cs c ∧
    c.reply.dst.written = [104, 105] := by
  obtain ⟨s, hs, hwritten⟩ := Option.map_eq_some_iff.1 exec_trickle
  obtain ⟨cs, c, hrun, hc⟩ := throttled_refines (run_of_exec hs)
  exact ⟨cs, c, hrun, by rw [hc, hwritten]⟩

end Steps

end MeshlyCore.Relay
