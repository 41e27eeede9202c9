import MeshlyCore.Lib.Machine
import MeshlyCore.RateLimit.Bucket

/-!
# What a bucket grants in a window of time

Any sequence of `acquire` calls on one bucket, with a rate that changes under their feet. A
`Meter` is the bucket with the call it is in the middle of, and remembers when it granted how
much.

**Theorem (`granted_le`).** While the rate stays between `1` and `R`, at most `R * (T + 1)`
bytes are granted in any `T` seconds: one bucket full, and `R` for every second.

A refill credits the whole time since the last one at the rate it finds, but never more than
`R` for a second of it; so the bytes granted in the window and the tokens in the bucket together
grow at most as fast as `R` times the time of the last refill.
-/

namespace MeshlyCore.RateLimit

open Machine

/-- A bucket, the call it is in (the rate read on entry, and the request), the grants so far,
latest first, and the time. -/
structure Meter where
  bucket : Bucket
  pending : Option (ℕ × ℕ)
  granted : List (ℚ × ℕ)
  clock : ℚ

def Meter.start (t : Tick) : Meter := ⟨.new t, none, [], t.now⟩

inductive MeterEvent where
  /-- `acquire(n)` is called and reads the rate. -/
  | call (t : Tick) (n : ℕ)
  /-- A pass of its loop. -/
  | pass (t : Tick)

def MeterEvent.tick : MeterEvent → Tick
  | call t _ => t
  | pass t => t

def Meter.next (m : Meter) (e : MeterEvent) : Option Meter :=
  if m.clock ≤ e.tick.now then
    match e, m.pending with
    | .call t n, none =>
        if t.rate = 0 ∨ n = 0 then
          some { m with granted := (t.now, n) :: m.granted, clock := t.now }
        else some { m with pending := some (t.rate, n), clock := t.now }
    | .pass t, some (bps, n) =>
        match acquirePass bps n t m.bucket with
        | .taken b => some ⟨b, none, (t.now, n) :: m.granted, t.now⟩
        | .sleep _ b => some { m with bucket := b, clock := t.now }
    | _, _ => none
  else none

/-- The bytes granted between `a` and `b`. -/
def Meter.grantedIn (a b : ℚ) (m : Meter) : ℕ :=
  ((m.granted.filter fun g => a ≤ g.1 ∧ g.1 ≤ b).map (·.2)).sum

/-- The rate the event finds is between `1` and `R`. -/
def Rated (R : ℚ) (_ : Meter) (e : MeterEvent) : Prop := 1 ≤ e.tick.rate ∧ (e.tick.rate : ℚ) ≤ R

/-! ## Steps -/

/-- With a positive rate a step grants nothing, or refills and grants what it takes out. -/
theorem meter_cases {m m' : Meter} {e : MeterEvent} (h : m.next e = some m')
    (hrate : e.tick.rate ≠ 0) :
    m.clock ≤ e.tick.now ∧ m'.clock = e.tick.now ∧
    ((m'.bucket = m.bucket ∧ (m'.granted = m.granted ∨ m'.granted = (e.tick.now, 0) :: m.granted)) ∨
    (m'.bucket = m.bucket.refill e.tick ∧ m'.granted = m.granted) ∨
    (∃ n : ℕ, (n : ℚ) ≤ (m.bucket.refill e.tick).available ∧
      m'.bucket = { m.bucket.refill e.tick with
        available := (m.bucket.refill e.tick).available - n } ∧
      m'.granted = (e.tick.now, n) :: m.granted)) := by
  unfold Meter.next at h
  split at h
  case isFalse => cases h
  rename_i hclock
  refine ⟨hclock, ?_⟩
  split at h
  · split at h
    · rename_i hret
      obtain rfl := Option.some.inj h
      obtain rfl := hret.resolve_left hrate
      exact ⟨rfl, .inl ⟨rfl, .inr rfl⟩⟩
    · obtain rfl := Option.some.inj h
      exact ⟨rfl, .inl ⟨rfl, .inl rfl⟩⟩
  · rename_i t bps n _
    unfold acquirePass at h
    by_cases hn : (n : ℚ) ≤ (m.bucket.refill t).available
    · simp only [if_pos hn] at h
      obtain rfl := Option.some.inj h
      exact ⟨rfl, .inr (.inr ⟨n, hn, rfl, rfl⟩)⟩
    · simp only [if_neg hn] at h
      obtain rfl := Option.some.inj h
      exact ⟨rfl, .inr (.inl ⟨rfl, rfl⟩)⟩
  · cases h

theorem grantedIn_cons {a b t : ℚ} {n : ℕ} {m m' : Meter}
    (h : m'.granted = (t, n) :: m.granted) :
    m'.grantedIn a b = (if a ≤ t ∧ t ≤ b then n else 0) + m.grantedIn a b := by
  unfold Meter.grantedIn
  rw [h, List.filter_cons]
  by_cases ht : a ≤ t ∧ t ≤ b
  · simp [ht]
  · simp [ht]

theorem grantedIn_congr {a b : ℚ} {m m' : Meter} (h : m'.granted = m.granted) :
    m'.grantedIn a b = m.grantedIn a b := by
  rw [Meter.grantedIn, Meter.grantedIn, h]

/-! ## The invariant -/

/-- Before the window nothing is granted in it; in the window, the bytes granted and the tokens
left are paid for by the time since `a` and one bucket full; after it, the bytes alone are. -/
structure Metered (R a b : ℚ) (m : Meter) : Prop where
  nonneg : 0 ≤ m.bucket.available
  capped : m.bucket.available ≤ R
  refilled : m.bucket.lastRefill ≤ m.clock
  before : m.bucket.lastRefill < a → m.grantedIn a b = 0
  inside : a ≤ m.bucket.lastRefill → m.bucket.lastRefill ≤ b →
    m.grantedIn a b + m.bucket.available ≤ R * (m.bucket.lastRefill - a + 1)
  after : a ≤ b → b < m.bucket.lastRefill → (m.grantedIn a b : ℚ) ≤ R * (b - a + 1)

variable {R a b : ℚ}

/-- A refill at `t` keeps the account, up to time `t`. -/
theorem Metered.refill {m : Meter} (hi : Metered R a b m) {t : Tick} (hpos : t.rate ≠ 0)
    (hR : (t.rate : ℚ) ≤ R) (hclock : m.clock ≤ t.now) {m' : Meter}
    (hb : m'.bucket = m.bucket.refill t) (hg : m'.granted = m.granted) (hc : m'.clock = t.now) :
    Metered R a b m' := by
  have hlast : m'.bucket.lastRefill = t.now := by rw [hb, lastRefill_refill hpos]
  have hgr : m'.grantedIn a b = m.grantedIn a b := grantedIn_congr hg
  have hcap : m'.bucket.available ≤ R := by
    rw [hb]
    exact (available_refill_le hpos m.bucket).trans hR
  have hR0 : 0 ≤ R := (Nat.cast_nonneg t.rate).trans hR
  have helapsed : 0 ≤ t.now - m.bucket.lastRefill := by linarith [hi.refilled]
  -- The credit is the time since the last refill, at a rate of at most `R`.
  have hcredit : m'.bucket.available ≤
      m.bucket.available + R * (t.now - m.bucket.lastRefill) := by
    rw [hb, available_refill hpos, max_eq_right helapsed]
    refine (min_le_left _ _).trans ?_
    have := mul_le_mul_of_nonneg_left hR helapsed
    linarith
  refine ⟨?_, hcap, by rw [hlast, hc], ?_, ?_, ?_⟩
  · rw [hb]
    exact available_refill_nonneg hi.nonneg t
  · intro hlt
    rw [hgr]
    refine hi.before (lt_of_le_of_lt ?_ hlt)
    rw [hlast]
    linarith
  · intro ha hb'
    rw [hgr]
    rw [hlast] at ha hb' ⊢
    by_cases hold : m.bucket.lastRefill < a
    · rw [hi.before hold]
      have := mul_nonneg hR0 (sub_nonneg.2 ha)
      push_cast
      linarith
    · have := hi.inside (not_lt.1 hold) (by linarith)
      linarith
  · intro hab hlt
    rw [hgr]
    by_cases hlt' : b < m.bucket.lastRefill
    · exact hi.after hab hlt'
    by_cases hold : m.bucket.lastRefill < a
    · rw [hi.before hold]
      have := mul_nonneg hR0 (sub_nonneg.2 hab)
      push_cast
      linarith
    · have := hi.inside (not_lt.1 hold) (not_lt.1 hlt')
      have := mul_le_mul_of_nonneg_left (not_lt.1 hlt') hR0
      linarith [hi.nonneg]

/-- What is granted at the time of the last refill moves from the bucket to the account. -/
theorem Metered.grant {m m' : Meter} (hi : Metered R a b m) {n : ℕ}
    (hn : (n : ℚ) ≤ m.bucket.available)
    (hb : m'.bucket = { m.bucket with available := m.bucket.available - n })
    (hg : m'.granted = (m.bucket.lastRefill, n) :: m.granted) (hc : m'.clock = m.clock) :
    Metered R a b m' := by
  have hlast : m'.bucket.lastRefill = m.bucket.lastRefill := by rw [hb]
  have havail : m'.bucket.available = m.bucket.available - n := by rw [hb]
  have hgr := grantedIn_cons (a := a) (b := b) hg
  refine ⟨?_, ?_, ?_, ?_, ?_, ?_⟩
  · rw [havail]
    linarith
  · rw [havail]
    linarith [hi.capped, Nat.cast_nonneg (α := ℚ) n]
  · rw [hlast, hc]
    exact hi.refilled
  · intro hlt
    rw [hlast] at hlt
    rw [hgr, if_neg fun h => absurd h.1 (not_le.2 hlt), hi.before hlt]
  · intro ha hb'
    rw [hlast] at ha hb'
    rw [hgr, if_pos ⟨ha, hb'⟩, havail, hlast]
    push_cast
    linarith [hi.inside ha hb']
  · intro hab hlt
    rw [hlast] at hlt
    rw [hgr, if_neg fun h => absurd h.2 (not_le.2 hlt), Nat.zero_add]
    exact hi.after hab hlt

/-- The clock alone does not matter. -/
theorem Metered.tick {m m' : Meter} (hi : Metered R a b m) (hb : m'.bucket = m.bucket)
    (hg : m'.grantedIn a b = m.grantedIn a b) (hc : m.clock ≤ m'.clock) : Metered R a b m' := by
  refine ⟨?_, ?_, ?_, ?_, ?_, ?_⟩
  · rw [hb]
    exact hi.nonneg
  · rw [hb]
    exact hi.capped
  · rw [hb]
    exact hi.refilled.trans hc
  · rw [hb, hg]
    exact hi.before
  · rw [hb, hg]
    exact hi.inside
  · rw [hb, hg]
    exact hi.after

theorem metered_start {t : Tick} (hR : (t.rate : ℚ) ≤ R) : Metered R a b (Meter.start t) := by
  have hR0 : 0 ≤ R := (Nat.cast_nonneg t.rate).trans hR
  have hzero : (Meter.start t).grantedIn a b = 0 := rfl
  refine ⟨Nat.cast_nonneg _, hR, le_rfl, fun _ => hzero, ?_, ?_⟩
  · intro ha _
    have := mul_nonneg hR0 (sub_nonneg.2 ha)
    have havail : (Meter.start t).bucket.available = t.rate := rfl
    rw [hzero, havail]
    push_cast
    linarith
  · intro hab _
    have := mul_nonneg hR0 (sub_nonneg.2 hab)
    rw [hzero]
    push_cast
    linarith

theorem metered_step {m m' : Meter} {e : MeterEvent}
    (h : Guarded (Rated R) (stepOf Meter.next) m e m') (hi : Metered R a b m) :
    Metered R a b m' := by
  obtain ⟨⟨hone, hR⟩, hstep⟩ := h
  have hpos : e.tick.rate ≠ 0 := by omega
  obtain ⟨hle, hc, hcase⟩ := meter_cases hstep hpos
  rcases hcase with ⟨hb, hg⟩ | ⟨hb, hg⟩ | ⟨n, hn, hb, hg⟩
  · refine hi.tick hb ?_ (hle.trans hc.ge)
    rcases hg with hg | hg
    · exact grantedIn_congr hg
    · rw [grantedIn_cons hg, ite_self, Nat.zero_add]
  · exact hi.refill hpos hR hle hb hg hc
  · -- The pass refills first, and takes its tokens at the time of that refill.
    have hmid : Metered R a b { m with bucket := m.bucket.refill e.tick, clock := e.tick.now } :=
      hi.refill hpos hR hle rfl rfl rfl
    refine hmid.grant hn hb ?_ hc
    rw [hg, lastRefill_refill hpos]

/-- What the account says of a window. -/
theorem Metered.grantedIn_le {m : Meter} {T : ℚ} (hi : Metered R a (a + T) m) (hT : 0 ≤ T) :
    (m.grantedIn a (a + T) : ℚ) ≤ R * (T + 1) := by
  have hR : 0 ≤ R := hi.nonneg.trans hi.capped
  rcases lt_or_ge m.bucket.lastRefill a with hbefore | hstart
  · rw [hi.before hbefore, Nat.cast_zero]
    exact mul_nonneg hR (by linarith)
  rcases lt_or_ge (a + T) m.bucket.lastRefill with hafter | hend
  · have hle := hi.after (by linarith) hafter
    rwa [add_sub_cancel_left] at hle
  · have hin := hi.inside hstart hend
    have htime := mul_le_mul_of_nonneg_left (sub_le_iff_le_add'.2 hend) hR
    linarith [hi.nonneg]

/-- **The grants of a window.** Whatever calls are made, however the rate moves between `1` and
`R` and the clock advances, any `T` seconds see at most `R * (T + 1)` bytes granted. -/
theorem granted_le {t₀ : Tick} (hR : (t₀.rate : ℚ) ≤ R) {es : List MeterEvent} {m : Meter}
    (hrun : Run (Guarded (Rated R) (stepOf Meter.next)) (Meter.start t₀) es m) (a : ℚ) {T : ℚ}
    (hT : 0 ≤ T) : (m.grantedIn a (a + T) : ℚ) ≤ R * (T + 1) := by
  have hi : Metered R a (a + T) m :=
    hrun.invariant (fun _ _ _ hs hi => metered_step hs hi) (metered_start hR)
  have hR0 : 0 ≤ R := (Nat.cast_nonneg t₀.rate).trans hR
  by_cases hbefore : m.bucket.lastRefill < a
  · rw [hi.before hbefore]
    have := mul_nonneg hR0 hT
    push_cast
    linarith
  by_cases hafter : a + T < m.bucket.lastRefill
  · have := hi.after (by linarith) hafter
    linarith
  · have hin := hi.inside (not_lt.1 hbefore) (not_lt.1 hafter)
    have htime : m.bucket.lastRefill - a ≤ T := by linarith [not_lt.1 hafter]
    have := mul_le_mul_of_nonneg_left htime hR0
    linarith [hi.nonneg]

/-- A request at 100 tokens a second, and one when the rate has been halved. -/
def meterEvents : List MeterEvent :=
  [.call ⟨100, 0⟩ 60, .pass ⟨100, 0⟩, .call ⟨100, 1⟩ 50, .pass ⟨50, 1⟩]

theorem exec_meterEvents : (exec Meter.next (Meter.start ⟨100, 0⟩) meterEvents).isSome := by
  decide +kernel

theorem granted_meterEvents :
    ∃ m, Run (Guarded (Rated 100) (stepOf Meter.next)) (Meter.start ⟨100, 0⟩) meterEvents m ∧
      m.grantedIn 0 (0 + 1) = 110 ∧ (m.grantedIn 0 (0 + 1) : ℚ) ≤ 100 * (1 + 1) := by
  have hrated : ∀ e ∈ meterEvents, ∀ m, Rated 100 m e := by
    simp [meterEvents, Rated, MeterEvent.tick]
  have hrun := (run_of_exec (Option.some_get exec_meterEvents).symm).guarded hrated
  exact ⟨_, hrun, by decide +kernel, granted_le (by norm_num) hrun 0 (by norm_num)⟩

end MeshlyCore.RateLimit
