import MeshlyCore.RateLimit.Bucket

/-!
# When a throttled writer makes progress

Under a constant cap a pass that finds too few tokens sleeps exactly until the deficit is
earned, so a request within the cap is granted on the second pass at the latest. The refill
clips the bucket at one second's worth: a request above the cap is never granted
(`acquire_exits_iff`), and `copy_throttled` gets through its stream just when no read exceeds
the cap.

A rate of `0` read inside the loop is no better. `refill` returns early and leaves the bucket as
it is, and the loop compares again: a writer that was waiting when its cap was lifted waits
forever (`acquire_stuck_of_unlimited`).
-/

namespace MeshlyCore.RateLimit

/-! ## Acquire under a constant cap -/

section Constant

variable {bps n : ℕ} {ticks : ℕ → Tick}

/-- The loop after a pass, from the pass. -/
theorem acquire_succ_of_taken {b b₁ b₂ : Bucket} {k : ℕ}
    (h : acquire bps n ticks b k = .looping b₁)
    (hpass : acquirePass bps n (ticks k) b₁ = .taken b₂) :
    acquire bps n ticks b (k + 1) = .returned b₂ := by
  simp only [acquire, h, Acquire.next, hpass]

theorem acquire_succ_of_sleep {b b₁ b₂ : Bucket} {k : ℕ} {wait : ℚ}
    (h : acquire bps n ticks b k = .looping b₁)
    (hpass : acquirePass bps n (ticks k) b₁ = .sleep wait b₂) :
    acquire bps n ticks b (k + 1) = .looping b₂ := by
  simp only [acquire, h, Acquire.next, hpass]

theorem acquire_zero (ticks : ℕ → Tick) (hbps : 1 ≤ bps) (hn : 1 ≤ n) (b : Bucket) :
    acquire bps n ticks b 0 = .looping b := by
  have h : ¬(bps = 0 ∨ n = 0) := by omega
  simp only [acquire, if_neg h]

/-- A request within the cap is granted by the second pass. -/
theorem exits_of_le (hbps : 1 ≤ bps) (hn : 1 ≤ n) (hrate : ∀ k, (ticks k).rate = bps)
    (hle : n ≤ bps) {b : Bucket} (hclock : SleepsOut bps n ticks b) :
    Exits bps n ticks b := by
  have h0 := acquire_zero ticks hbps hn b
  cases hpass : acquirePass bps n (ticks 0) b with
  | taken b₁ => exact ⟨1, b₁, acquire_succ_of_taken h0 hpass⟩
  | sleep wait b₁ =>
    have h1 := acquire_succ_of_sleep h0 hpass
    obtain ⟨b₂, hpass₂⟩ := acquirePass_after_sleep (hrate 0) (hrate 1) hbps hle hpass
      (hclock 0 b wait b₁ h0 hpass)
    exact ⟨2, b₂, acquire_succ_of_taken h1 hpass₂⟩

/-- A request above the cap is still waiting after any number of passes. -/
theorem looping_of_lt (hbps : 1 ≤ bps) (hrate : ∀ k, (ticks k).rate = bps) (hlt : bps < n)
    (b : Bucket) (k : ℕ) : ∃ b', acquire bps n ticks b k = .looping b' := by
  induction k with
  | zero => exact ⟨b, acquire_zero ticks hbps (by omega) b⟩
  | succ k ih =>
    obtain ⟨b₁, h₁⟩ := ih
    have hne : (ticks k).rate ≠ 0 := by rw [hrate k]; omega
    have hlt' : (ticks k).rate < n := by rw [hrate k]; exact hlt
    obtain ⟨wait, hpass⟩ := acquirePass_of_rate_lt bps hne hlt' b₁
    exact ⟨_, acquire_succ_of_sleep h₁ hpass⟩

theorem exits_iff_le (hbps : 1 ≤ bps) (hn : 1 ≤ n) (hrate : ∀ k, (ticks k).rate = bps)
    {b : Bucket} (hclock : SleepsOut bps n ticks b) : Exits bps n ticks b ↔ n ≤ bps := by
  refine ⟨?_, fun hle => exits_of_le hbps hn hrate hle hclock⟩
  intro hexits
  obtain ⟨k, b', hk⟩ := hexits
  by_contra hlt
  obtain ⟨b₁, h₁⟩ := looping_of_lt hbps hrate (not_le.1 hlt) b k
  rw [hk] at h₁
  cases h₁

end Constant

/-! ## Copying under a constant cap -/

section Copying

variable {bps : ℕ} {ticks : ℕ → Tick}

/-- A chunk within the cap is written within four awaits of its read. -/
theorem copy_chunk {s : Copy} (hbps : 1 ≤ bps) (hrate : ∀ k, (ticks k).rate = bps)
    (hclock : s.SleepsOut ticks) {k n : ℕ} {rest : List ℕ} (hn : 1 ≤ n) (hle : n ≤ bps)
    (hphase : (s.after ticks k).phase = .reading)
    (hpending : (s.after ticks k).pending = n :: rest) :
    ∃ k', (s.after ticks k').phase = .reading ∧ (s.after ticks k').pending = rest ∧
      (s.after ticks k').total = (s.after ticks k).total + n := by
  have hread : s.after ticks (k + 1) =
      { s.after ticks k with phase := .acquiring bps n, pending := rest } := by
    have := Copy.step_read (t := ticks k) hphase hpending (by omega) (by rw [hrate k]; omega)
    rwa [hrate k] at this
  have hphase₁ : (s.after ticks (k + 1)).phase = .acquiring bps n := by rw [hread]
  cases hpass : acquirePass bps n (ticks (k + 1)) (s.after ticks (k + 1)).bucket with
  | taken b =>
    have htake : s.after ticks (k + 2) = _ := Copy.step_taken hphase₁ hpass
    have hwrite : s.after ticks (k + 3) = _ := Copy.step_write (n := n) (by rw [htake])
    refine ⟨k + 3, ?_⟩
    simp [hwrite, htake, hread]
  | sleep wait b =>
    have hsleep : s.after ticks (k + 2) = _ := Copy.step_sleep hphase₁ hpass
    have hphase₂ : (s.after ticks (k + 2)).phase = .acquiring bps n := by rw [hsleep]; exact hphase₁
    obtain ⟨b', hpass'⟩ := acquirePass_after_sleep (hrate (k + 1)) (hrate (k + 2)) hbps hle hpass
      (hclock (k + 1) bps n wait b hphase₁ hpass)
    have htake : s.after ticks (k + 3) = _ := Copy.step_taken (b := b') hphase₂
      (by rw [hsleep]; exact hpass')
    have hwrite : s.after ticks (k + 4) = _ := Copy.step_write (n := n) (by rw [htake])
    refine ⟨k + 4, ?_⟩
    simp [hwrite, htake, hsleep, hread]

/-- A stream whose reads are all within the cap is copied to its end. -/
theorem copy_finishes {s : Copy} (hbps : 1 ≤ bps) (hrate : ∀ k, (ticks k).rate = bps)
    (hclock : s.SleepsOut ticks) {k : ℕ} (hphase : (s.after ticks k).phase = .reading)
    (hpending : ∀ n ∈ (s.after ticks k).pending, 1 ≤ n ∧ n ≤ bps) :
    ∃ k', (s.after ticks k').phase = .finished ∧
      (s.after ticks k').total = (s.after ticks k).total + (s.after ticks k).pending.sum := by
  induction hp : (s.after ticks k).pending generalizing k with
  | nil =>
    have hend : s.after ticks (k + 1) = _ := Copy.step_eof hphase hp
    exact ⟨k + 1, by simp [hend]⟩
  | cons n rest ih =>
    have hn := hpending n (by simp [hp])
    obtain ⟨k₁, hphase₁, hrest, htotal⟩ := copy_chunk hbps hrate hclock hn.1 hn.2 hphase hp
    obtain ⟨k₂, hfin, htotal₂⟩ := ih hphase₁ (by
      intro m hm
      rw [hrest] at hm
      exact hpending m (by simp [hp, hm])) hrest
    refine ⟨k₂, hfin, ?_⟩
    rw [htotal₂, htotal, List.sum_cons]
    omega

/-- A chunk above the cap is still to come, or is being waited for. -/
def Copy.Blocked (bps : ℕ) (s : Copy) : Prop :=
  (∃ n, s.phase = .acquiring bps n ∧ bps < n) ∨
    (s.phase ≠ .finished ∧ (∀ n ∈ s.pending, 1 ≤ n) ∧ ∃ n ∈ s.pending, bps < n)

theorem blocked_step {s : Copy} {t : Tick} (hbps : 1 ≤ bps) (ht : t.rate = bps)
    (h : s.Blocked bps) : (s.step t).Blocked bps := by
  have hne : t.rate ≠ 0 := by omega
  rcases h with ⟨n, hphase, hlt⟩ | ⟨hfin, hpos, m, hm, hlt⟩
  · obtain ⟨wait, hpass⟩ := acquirePass_of_rate_lt bps hne (ht ▸ hlt) s.bucket
    rw [Copy.step_sleep hphase hpass]
    exact .inl ⟨n, hphase, hlt⟩
  · cases hphase : s.phase with
    | reading =>
      cases hp : s.pending with
      | nil => simp [hp] at hm
      | cons n rest =>
        have hn : 1 ≤ n := hpos n (by simp [hp])
        rw [Copy.step_read hphase hp (by omega) hne, ht]
        rw [hp, List.mem_cons] at hm
        rcases hm with rfl | hm
        · exact .inl ⟨m, rfl, hlt⟩
        · exact .inr ⟨by simp, fun i hi => hpos i (by simp [hp, hi]), m, hm, hlt⟩
    | acquiring bps' n =>
      cases hpass : acquirePass bps' n t s.bucket with
      | taken b =>
        rw [Copy.step_taken hphase hpass]
        exact .inr ⟨by simp, hpos, m, hm, hlt⟩
      | sleep wait b =>
        rw [Copy.step_sleep hphase hpass]
        exact .inr ⟨hfin, hpos, m, hm, hlt⟩
    | writing n =>
      rw [Copy.step_write hphase]
      exact .inr ⟨by simp, hpos, m, hm, hlt⟩
    | finished => exact absurd hphase hfin

theorem blocked_after {s : Copy} (hbps : 1 ≤ bps) (hrate : ∀ k, (ticks k).rate = bps)
    (h : s.Blocked bps) (k : ℕ) : (s.after ticks k).Blocked bps := by
  induction k with
  | zero => exact h
  | succ k ih => exact blocked_step hbps (hrate k) ih

theorem copy_finishes_iff {s : Copy} (hbps : 1 ≤ bps) (hrate : ∀ k, (ticks k).rate = bps)
    (hphase : s.phase = .reading) (hpos : ∀ n ∈ s.pending, 1 ≤ n) (hclock : s.SleepsOut ticks) :
    (∃ k, (s.after ticks k).phase = .finished ∧
      (s.after ticks k).total = s.total + s.pending.sum) ↔ ∀ n ∈ s.pending, n ≤ bps := by
  constructor
  · rintro ⟨k, hfin, -⟩ n hn
    by_contra hlt
    have hblocked : s.Blocked bps := .inr ⟨by simp [hphase], hpos, n, hn, not_le.1 hlt⟩
    rcases blocked_after hbps hrate hblocked k with ⟨m, hm, -⟩ | ⟨hne, -⟩
    · rw [hfin] at hm
      cases hm
    · exact hne hfin
  · intro hle
    exact copy_finishes (k := 0) hbps hrate hclock hphase fun n hn => ⟨hpos n hn, hle n hn⟩

end Copying

/-- **Progress under a constant cap.** `acquire` leaves its loop exactly when the request is
within the cap, from every bucket; and a copy reaches the end of its stream exactly when every
read is. -/
theorem acquire_exits_iff {bps : ℕ} (hbps : 1 ≤ bps) {ticks : ℕ → Tick}
    (hrate : ∀ k, (ticks k).rate = bps) :
    (∀ n b, 1 ≤ n → n ≤ readBuffer → SleepsOut bps n ticks b →
      (Exits bps n ticks b ↔ n ≤ bps)) ∧
    ∀ s : Copy, s.phase = .reading → (∀ n ∈ s.pending, 1 ≤ n ∧ n ≤ readBuffer) →
      s.SleepsOut ticks →
      ((∃ k, (s.after ticks k).phase = .finished ∧
        (s.after ticks k).total = s.total + s.pending.sum) ↔ ∀ n ∈ s.pending, n ≤ bps) := by
  refine ⟨fun n b hn _ hclock => exits_iff_le hbps hn hrate hclock, ?_⟩
  intro s hphase hpending hclock
  exact copy_finishes_iff hbps hrate hphase (fun n hn => (hpending n hn).1) hclock

/-- A constant rate, and a clock that advances two seconds a pass. -/
def steady (bps : ℕ) (k : ℕ) : Tick := ⟨bps, 2 * k⟩

/-- Two seconds are enough for any request of twice the rate. -/
theorem sleepsOut_steady {bps n : ℕ} (hbps : 1 ≤ bps) (hn : n ≤ 2 * bps) {b : Bucket}
    (hb : 0 ≤ b.available) : SleepsOut bps n (steady bps) b := by
  have hnonneg : ∀ k b', acquire bps n (steady bps) b k = .looping b' → 0 ≤ b'.available := by
    intro k
    induction k with
    | zero =>
      intro b' h
      simp only [acquire] at h
      split at h
      · cases h
      · exact Acquire.looping.inj h ▸ hb
    | succ k ih =>
      intro b' h
      cases hk : acquire bps n (steady bps) b k with
      | returned c => simp [acquire, hk, Acquire.next] at h
      | looping c =>
        rcases acquirePass_cases bps n (steady bps k) c with ⟨-, c', hpass⟩ | ⟨-, hpass⟩
        · simp [acquire_succ_of_taken hk hpass] at h
        · rw [acquire_succ_of_sleep hk hpass] at h
          exact Acquire.looping.inj h ▸ available_refill_nonneg (ih c hk) _
  intro k b₁ wait b₂ hk hpass
  rcases acquirePass_cases bps n (steady bps k) b₁ with ⟨-, c, heq⟩ | ⟨-, heq⟩
  · rw [heq] at hpass
    cases hpass
  · rw [heq] at hpass
    obtain ⟨rfl, -⟩ := Pass.sleep.inj hpass
    have havail := available_refill_nonneg (hnonneg k b₁ hk) (steady bps k)
    have hpos : (0 : ℚ) < bps := by exact_mod_cast hbps
    have hn' : (n : ℚ) ≤ 2 * bps := by exact_mod_cast hn
    have hwait : waitFor bps n (b₁.refill (steady bps k)) ≤ 2 := by
      refine max_le ?_ (by norm_num)
      rw [div_le_iff₀ hpos]
      linarith
    have hnow : (steady bps (k + 1)).now = (steady bps k).now + 2 := by
      simp only [steady, Nat.cast_add, Nat.cast_one]
      ring
    linarith

/-- A request for 60 tokens at 100 a second that finds the bucket empty. -/
theorem acquire_exits_sixty : Exits 100 60 (steady 100) ⟨0, 0⟩ := by
  have hclock : SleepsOut 100 60 (steady 100) ⟨0, 0⟩ :=
    sleepsOut_steady (by norm_num) (by norm_num) le_rfl
  have hrate : ∀ k, (steady 100 k).rate = 100 := fun _ => rfl
  have hmain := acquire_exits_iff (by norm_num) hrate
  exact (hmain.1 60 ⟨0, 0⟩ (by norm_num) (by norm_num [readBuffer]) hclock).2 (by norm_num)

/-- A cap of 8 KiB a second and a full read buffer: every pass finds the bucket full and half of
what it needs. -/
theorem readBuffer_never_exits :
    SleepsOut 8192 readBuffer (steady 8192) (.new (steady 8192 0)) ∧
      ¬Exits 8192 readBuffer (steady 8192) (.new (steady 8192 0)) := by
  have hbuf : 8192 < readBuffer := by norm_num [readBuffer]
  have hrate : ∀ k, (steady 8192 k).rate = 8192 := fun _ => rfl
  refine ⟨sleepsOut_steady (by norm_num) (by norm_num [readBuffer]) (Nat.cast_nonneg _), ?_⟩
  intro hexits
  obtain ⟨k, b, hk⟩ := hexits
  obtain ⟨b', hk'⟩ := looping_of_lt (by norm_num) hrate hbuf (.new (steady 8192 0)) k
  rw [hk] at hk'
  cases hk'

/-! ## The cap lifted during a wait -/

section Unlimited

variable {bps n : ℕ} {ticks : ℕ → Tick} {b b' : Bucket}

theorem acquire_returned_mono {k : ℕ} (h : acquire bps n ticks b k = .returned b') (j : ℕ) :
    acquire bps n ticks b (k + j) = .returned b' := by
  induction j with
  | zero => exact h
  | succ j ih => rw [← Nat.add_assoc, acquire, ih, Acquire.next]

/-- A loop that is still running after a pass has too few tokens. -/
theorem available_lt_of_looping {k : ℕ} (h : acquire bps n ticks b (k + 1) = .looping b') :
    b'.available < n := by
  cases hk : acquire bps n ticks b k with
  | returned c => simp [acquire, hk, Acquire.next] at h
  | looping c =>
    rcases acquirePass_cases bps n (ticks k) c with ⟨-, c', hpass⟩ | ⟨hlt, hpass⟩
    · simp [acquire_succ_of_taken hk hpass] at h
    · rw [acquire_succ_of_sleep hk hpass] at h
      exact Acquire.looping.inj h ▸ hlt

/-- At rate `0` a pass that finds too few tokens changes nothing. -/
theorem looping_of_unlimited {k : ℕ} (h : acquire bps n ticks b (k + 1) = .looping b')
    (hzero : ∀ i > k, (ticks i).rate = 0) (j : ℕ) :
    acquire bps n ticks b (k + 1 + j) = .looping b' := by
  have hlt := available_lt_of_looping h
  induction j with
  | zero => exact h
  | succ j ih =>
    have hrate : (ticks (k + 1 + j)).rate = 0 := hzero _ (by omega)
    rcases acquirePass_cases bps n (ticks (k + 1 + j)) b' with ⟨hle, -⟩ | ⟨-, hpass⟩
    · rw [refill_zero hrate] at hle
      exact absurd hle (not_le.2 hlt)
    · rw [refill_zero hrate] at hpass
      exact acquire_succ_of_sleep ih hpass

theorem not_exits_of_unlimited {k : ℕ} (h : acquire bps n ticks b (k + 1) = .looping b')
    (hzero : ∀ i > k, (ticks i).rate = 0) : ¬Exits bps n ticks b := by
  intro hexits
  obtain ⟨m, c, hm⟩ := hexits
  have hret := acquire_returned_mono hm (k + 1)
  have hloop := looping_of_unlimited h hzero m
  rw [Nat.add_comm, hret] at hloop
  cases hloop

/-- **A writer that waits when its cap is lifted waits forever**: whatever the bucket, the
request and the clock, if `0` is in the handle from some moment between two passes on, the loop
is never left. -/
theorem acquire_stuck_of_unlimited {k : ℕ} (h : acquire bps n ticks b (k + 1) = .looping b')
    (hzero : ∀ i > k, (ticks i).rate = 0) :
    (∀ j, acquire bps n ticks b (k + 1 + j) = .looping b') ∧ ¬Exits bps n ticks b :=
  ⟨looping_of_unlimited h hzero, not_exits_of_unlimited h hzero⟩

end Unlimited

/-- `steady 100` until the first pass is over, and unlimited from then on. -/
def lifted (k : ℕ) : Tick := if k = 0 then ⟨100, 0⟩ else ⟨0, 2 * k⟩

theorem rate_lifted : ∀ i > 0, (lifted i).rate = 0 := by
  intro i hi
  rw [lifted, if_neg (by omega)]

theorem acquire_lifted : acquire 100 60 lifted ⟨0, 0⟩ (0 + 1) = .looping ⟨0, 0⟩ := by
  decide +kernel

theorem acquire_stuck_sixty :
    acquire 100 60 lifted ⟨0, 0⟩ (0 + 1 + 1000) = .looping ⟨0, 0⟩ ∧
      ¬Exits 100 60 lifted ⟨0, 0⟩ := by
  obtain ⟨hloop, hnever⟩ := acquire_stuck_of_unlimited acquire_lifted rate_lifted
  exact ⟨hloop 1000, hnever⟩

/-- The request that 100 tokens a second would have granted is never granted. -/
theorem lifted_never_exits :
    (∀ i > 0, (lifted i).rate = 0) ∧ acquire 100 60 lifted ⟨0, 0⟩ (0 + 1) = .looping ⟨0, 0⟩ ∧
      ¬Exits 100 60 lifted ⟨0, 0⟩ :=
  ⟨rate_lifted, acquire_lifted, not_exits_of_unlimited acquire_lifted rate_lifted⟩

end MeshlyCore.RateLimit
