import Mathlib

/-!
# The reply-direction token bucket

`ratelimit.rs`: a bucket holds at most one second's worth of tokens, and `copy_throttled` takes
one token for every byte it forwards. The rate lives in a shared handle that may change at any
time; `0` in it means unlimited. Time and tokens are rationals in place of `f64`.

The handle and the clock belong to the environment. Each pass through a loop reads both, so a
run is driven by a stream of `Tick`s, one a pass.
-/

namespace MeshlyCore.RateLimit

/-! ## Bucket -/

/-- What one pass of a loop sees: the value in the rate handle, and the clock. -/
structure Tick where
  rate : ℕ
  now : ℚ

structure Bucket where
  available : ℚ
  lastRefill : ℚ
  deriving DecidableEq

/-- One full second's worth of tokens. -/
def Bucket.new (t : Tick) : Bucket := ⟨t.rate, t.now⟩

/-- `Instant::duration_since` gives zero when the clock stands before `lastRefill`. -/
def Bucket.refill (t : Tick) (b : Bucket) : Bucket :=
  if t.rate = 0 then b
  else
    let elapsed := max 0 (t.now - b.lastRefill)
    { available := min (b.available + elapsed * t.rate) t.rate, lastRefill := t.now }

/-! ## Acquire -/

/-- The two ends of one pass of the loop of `acquire`. -/
inductive Pass where
  | taken (b : Bucket)
  | sleep (wait : ℚ) (b : Bucket)
  deriving DecidableEq

/-- The sleep of a pass that finds too few tokens: the time the deficit takes at the rate
`acquire` was entered with, and at least one millisecond. -/
def waitFor (bps n : ℕ) (b : Bucket) : ℚ := max ((n - b.available) / bps) (1 / 1000)

/-- One pass of the loop, for `n` tokens; `bps` is the rate `acquire` read before the loop. -/
def acquirePass (bps n : ℕ) (t : Tick) (b : Bucket) : Pass :=
  let b := b.refill t
  if (n : ℚ) ≤ b.available then .taken { b with available := b.available - n }
  else .sleep (waitFor bps n b) b

/-- Where `acquire` stands. -/
inductive Acquire where
  | returned (b : Bucket)
  | looping (b : Bucket)
  deriving DecidableEq

def Acquire.next (bps n : ℕ) (t : Tick) : Acquire → Acquire
  | .returned b => .returned b
  | .looping b =>
      match acquirePass bps n t b with
      | .taken b' => .returned b'
      | .sleep _ b' => .looping b'

/-- `acquire(n)`, entered with `bps` in the handle, after `k` passes of its loop. -/
def acquire (bps n : ℕ) (ticks : ℕ → Tick) (b : Bucket) : ℕ → Acquire
  | 0 => if bps = 0 ∨ n = 0 then .returned b else .looping b
  | k + 1 => (acquire bps n ticks b k).next bps n (ticks k)

/-- Every sleep of `acquire` lasts at least as long as it asked for. -/
def SleepsOut (bps n : ℕ) (ticks : ℕ → Tick) (b : Bucket) : Prop :=
  ∀ k b₁ wait b₂, acquire bps n ticks b k = .looping b₁ →
    acquirePass bps n (ticks k) b₁ = .sleep wait b₂ → (ticks k).now + wait ≤ (ticks (k + 1)).now

/-- The loop of `acquire` is left. -/
def Exits (bps n : ℕ) (ticks : ℕ → Tick) (b : Bucket) : Prop :=
  ∃ k b', acquire bps n ticks b k = .returned b'

/-! ## Copying -/

/-- The read buffer of `copy_throttled`. -/
def readBuffer : ℕ := 16 * 1024

inductive CopyPhase where
  | reading
  | acquiring (bps n : ℕ)
  | writing (n : ℕ)
  | finished
  deriving DecidableEq

/-- `copy_throttled` over a reader whose reads give `pending` bytes, one entry a read, and then
end of file. -/
structure Copy where
  bucket : Bucket
  phase : CopyPhase
  pending : List ℕ
  total : ℕ
  deriving DecidableEq

def Copy.start (t : Tick) (pending : List ℕ) : Copy := ⟨.new t, .reading, pending, 0⟩

/-- One await of `copy_throttled`. -/
def Copy.step (t : Tick) (s : Copy) : Copy :=
  match s.phase with
  | .reading =>
      match s.pending with
      | [] => { s with phase := .finished }
      | n :: rest =>
          if n = 0 then { s with phase := .finished }
          else if t.rate = 0 then { s with phase := .writing n, pending := rest }
          else { s with phase := .acquiring t.rate n, pending := rest }
  | .acquiring bps n =>
      match acquirePass bps n t s.bucket with
      | .taken b => { s with bucket := b, phase := .writing n }
      | .sleep _ b => { s with bucket := b }
  | .writing n => { s with phase := .reading, total := s.total + n }
  | .finished => s

/-- `copy_throttled` after `k` awaits. -/
def Copy.after (ticks : ℕ → Tick) (s : Copy) : ℕ → Copy
  | 0 => s
  | k + 1 => (s.after ticks k).step (ticks k)

/-- Every sleep of the copy lasts at least as long as it asked for. -/
def Copy.SleepsOut (ticks : ℕ → Tick) (s : Copy) : Prop :=
  ∀ k bps n wait b, (s.after ticks k).phase = .acquiring bps n →
    acquirePass bps n (ticks k) (s.after ticks k).bucket = .sleep wait b →
    (ticks k).now + wait ≤ (ticks (k + 1)).now

/-! ## What a pass does -/

theorem refill_zero {t : Tick} (h : t.rate = 0) (b : Bucket) : b.refill t = b := by
  simp [Bucket.refill, h]

theorem available_refill {t : Tick} (h : t.rate ≠ 0) (b : Bucket) :
    (b.refill t).available =
      min (b.available + max 0 (t.now - b.lastRefill) * t.rate) t.rate := by
  simp [Bucket.refill, h]

/-- **The bucket is clipped**: after a refill it holds at most one second's worth. -/
theorem available_refill_le {t : Tick} (h : t.rate ≠ 0) (b : Bucket) :
    (b.refill t).available ≤ t.rate := by
  rw [available_refill h]
  exact min_le_right _ _

theorem available_refill_nonneg {b : Bucket} (h : 0 ≤ b.available) (t : Tick) :
    0 ≤ (b.refill t).available := by
  by_cases ht : t.rate = 0
  · rwa [refill_zero ht]
  · have hearned : (0 : ℚ) ≤ max 0 (t.now - b.lastRefill) * t.rate :=
      mul_nonneg (le_max_left _ _) (Nat.cast_nonneg _)
    rw [available_refill ht]
    exact le_min (add_nonneg h hearned) (Nat.cast_nonneg _)

theorem lastRefill_refill {t : Tick} (h : t.rate ≠ 0) (b : Bucket) :
    (b.refill t).lastRefill = t.now := by
  simp [Bucket.refill, h]

theorem acquirePass_cases (bps n : ℕ) (t : Tick) (b : Bucket) :
    ((n : ℚ) ≤ (b.refill t).available ∧ ∃ b', acquirePass bps n t b = .taken b') ∨
    ((b.refill t).available < n ∧
      acquirePass bps n t b = .sleep (waitFor bps n (b.refill t)) (b.refill t)) := by
  unfold acquirePass
  by_cases h : (n : ℚ) ≤ (b.refill t).available
  · exact .inl ⟨h, _, if_pos h⟩
  · exact .inr ⟨not_le.1 h, if_neg h⟩

/-- A request above the rate finds too few tokens whatever happened before. -/
theorem acquirePass_of_rate_lt (bps : ℕ) {n : ℕ} {t : Tick} (ht : t.rate ≠ 0) (hn : t.rate < n)
    (b : Bucket) : ∃ wait, acquirePass bps n t b = .sleep wait (b.refill t) := by
  rcases acquirePass_cases bps n t b with ⟨hle, -⟩ | ⟨-, heq⟩
  · have hrate : (n : ℚ) ≤ t.rate := hle.trans (available_refill_le ht b)
    exact absurd (Nat.cast_le.1 hrate) (not_le.2 hn)
  · exact ⟨_, heq⟩

/-- A request within the rate is granted by the pass after a full sleep. -/
theorem acquirePass_after_sleep {bps n : ℕ} {t t' : Tick} {b b' : Bucket} {wait : ℚ}
    (ht : t.rate = bps) (ht' : t'.rate = bps) (hbps : 1 ≤ bps) (hn : n ≤ bps)
    (hsleep : acquirePass bps n t b = .sleep wait b') (hclock : t.now + wait ≤ t'.now) :
    ∃ b'', acquirePass bps n t' b' = .taken b'' := by
  have hrate : t.rate ≠ 0 := by omega
  have hrate' : t'.rate ≠ 0 := by omega
  rcases acquirePass_cases bps n t b with ⟨-, _, heq⟩ | ⟨-, heq⟩
  · rw [heq] at hsleep
    cases hsleep
  · rw [heq] at hsleep
    obtain ⟨rfl, rfl⟩ := Pass.sleep.inj hsleep
    rcases acquirePass_cases bps n t' (b.refill t) with ⟨-, h⟩ | ⟨hlt, -⟩
    · exact h
    · exfalso
      -- The deficit is earned during the sleep, and the cap is at least `n`.
      set c := b.refill t
      have hlast : c.lastRefill = t.now := lastRefill_refill hrate b
      have hpos : (0 : ℚ) < bps := by exact_mod_cast hbps
      have hearned : (n : ℚ) - c.available ≤ max 0 (t'.now - c.lastRefill) * bps := by
        have hwait : (n - c.available) / bps ≤ t'.now - c.lastRefill := by
          have := le_max_left ((n - c.available) / bps) (1 / 1000)
          rw [hlast]
          unfold waitFor at hclock
          linarith
        rw [div_le_iff₀ hpos] at hwait
        exact hwait.trans (mul_le_mul_of_nonneg_right (le_max_right _ _) hpos.le)
      have hcap : (n : ℚ) ≤ bps := by exact_mod_cast hn
      rw [available_refill hrate', ht', min_lt_iff] at hlt
      rcases hlt with h | h <;> linarith

/-! ## What an await of the copy does -/

section Step

variable {s : Copy} {t : Tick} {bps n : ℕ} {rest : List ℕ} {b : Bucket} {wait : ℚ}

theorem Copy.step_eof (h : s.phase = .reading) (hp : s.pending = []) :
    s.step t = { s with phase := .finished } := by
  simp only [Copy.step, h, hp]

theorem Copy.step_read (h : s.phase = .reading) (hp : s.pending = n :: rest) (hn : n ≠ 0)
    (ht : t.rate ≠ 0) :
    s.step t = { s with phase := .acquiring t.rate n, pending := rest } := by
  simp only [Copy.step, h, hp, if_neg hn, if_neg ht]

theorem Copy.step_taken (h : s.phase = .acquiring bps n)
    (hp : acquirePass bps n t s.bucket = .taken b) :
    s.step t = { s with bucket := b, phase := .writing n } := by
  simp only [Copy.step, h, hp]

theorem Copy.step_sleep (h : s.phase = .acquiring bps n)
    (hp : acquirePass bps n t s.bucket = .sleep wait b) :
    s.step t = { s with bucket := b } := by
  simp only [Copy.step, h, hp]

theorem Copy.step_write (h : s.phase = .writing n) :
    s.step t = { s with phase := .reading, total := s.total + n } := by
  simp only [Copy.step, h]

end Step

end MeshlyCore.RateLimit
