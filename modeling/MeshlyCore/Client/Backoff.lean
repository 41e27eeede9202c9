import MeshlyCore.Client.Dial

/-!
# How long `dial_stream` waits

`consume.rs` and `main.rs`: a `dial_stream` whose relayed dial fails sleeps for its backoff and
doubles it. `run_client` has raised the configured values to a floor each, which keeps the loop
from running hot; `max_backoff_ms` is the cap, and it is applied after the doubling.

**Theorem (`paced_iff`).** The sleeps of every run stay between the floor and the cap, never get
shorter, and can all be doubled in a `u64`, just when the first of them is below the cap and the
cap is below `2 ^ 63`. Nothing compares the two values, so the first sleep can be above the cap
and the second one shorter.
-/

namespace MeshlyCore.Client

open Protocol Alpn Machine

/-! ## The values `run_client` makes -/

def clampBackoff (configured floor : UInt64) : UInt64 :=
  if configured < floor then floor else configured

/-- The reconnect section as `run_client` hands it to the consumers. -/
def ReconnectConfig.clamped (configured : ReconnectConfig) : ReconnectConfig where
  initialBackoffMs := clampBackoff configured.initialBackoffMs 10
  maxBackoffMs := clampBackoff configured.maxBackoffMs 100
  preferDirect := configured.preferDirect

theorem toNat_clampBackoff (configured floor : UInt64) :
    (clampBackoff configured floor).toNat = max configured.toNat floor.toNat := by
  unfold clampBackoff
  split_ifs with h
  · exact (max_eq_right (UInt64.lt_iff_toNat_lt.1 h).le).symm
  · exact (max_eq_left (UInt64.le_iff_toNat_le.1 (UInt64.not_lt.1 h))).symm

/-! ## The sleeps of a run -/

def Phase.sleep? : Phase → Option UInt64
  | .sleeping ms => some ms
  | _ => none

/-- The sleep that `dial_stream` number `i` goes into with an event. -/
def sleepOf (cfg : ConsumeConfig) (dbg : Debug) (i : ℕ) (s : Consumer) (e : Event) :
    Option UInt64 :=
  if e.run = i then ((s.next cfg dbg e).bind fun t => t.runs i).bind fun r => r.phase.sleep?
  else none

/-- The sleeps of `dial_stream` number `i`, in their order. -/
def sleeps (cfg : ConsumeConfig) (dbg : Debug) (i : ℕ) (s : Consumer) (es : List Event) :
    List UInt64 :=
  observe (Consumer.next cfg dbg) (sleepOf cfg dbg i) s es

/-- The sleeps are between the floor and the cap, never get shorter, and can be doubled. -/
structure Paced (cap : UInt64) (ms : List UInt64) : Prop where
  floor : ∀ d ∈ ms, 10 ≤ d
  cap : ∀ d ∈ ms, d ≤ cap
  ordered : ms.Pairwise (· ≤ ·)
  doubles : ∀ d ∈ ms, d.toNat * 2 < 2 ^ 64

/-- The backoff `dial_stream` number `i` has come to. -/
def backoff (cfg : ConsumeConfig) (i : ℕ) (s : Consumer) : UInt64 :=
  (s.runs i).elim cfg.reconnect.initialBackoffMs DialRun.backoffMs

section Steps

variable {cfg : ConsumeConfig} {dbg : Debug} {s s' : Consumer} {e : Event} {i : ℕ}

theorem sleep?_attempt (p : Provider) : (attempt cfg p).sleep? = none := by
  unfold attempt
  split <;> rfl

/-- A step of a run sleeps for the backoff and doubles it, or does neither. -/
theorem next_backoff {cached cached' : Option Provider} {time : ℕ} {act : Act} {r r' : DialRun}
    (h : r.next cfg dbg cached time act = some (r', cached')) :
    (r'.phase.sleep? = none ∧ r'.backoffMs = r.backoffMs) ∨
      (r'.phase.sleep? = some r.backoffMs ∧
        r'.backoffMs = min (r.backoffMs * 2) cfg.reconnect.maxBackoffMs) := by
  cases dial_move h with
  | hit => exact .inl ⟨sleep?_attempt _, rfl⟩
  | store => exact .inl ⟨sleep?_attempt _, rfl⟩
  | relayErr => exact .inr ⟨rfl, rfl⟩
  | @directErr p x f =>
    refine .inl ⟨?_, rfl⟩
    split <;> rfl
  | _ => exact .inl ⟨rfl, rfl⟩

/-- What a step of the consumer does to the backoff of one `dial_stream`. -/
theorem backoff_step (h : Steps cfg dbg s e s') :
    (sleepOf cfg dbg i s e = none ∧ backoff cfg i s' = backoff cfg i s) ∨
      (sleepOf cfg dbg i s e = some (backoff cfg i s) ∧
        backoff cfg i s' = min (backoff cfg i s * 2) cfg.reconnect.maxBackoffMs) := by
  have hnext : s.next cfg dbg e = some s' := h
  unfold sleepOf
  rw [hnext, Option.bind_some]
  unfold Steps stepOf Consumer.next at h
  by_cases hi : e.run = i
  · subst hi
    rw [if_pos rfl]
    unfold backoff
    split at h
    · rename_i hr _
      obtain rfl := Option.some.inj h
      simp only [hr, Function.update_self]
      exact .inl ⟨rfl, rfl⟩
    · cases h
    · rename_i r hr
      obtain ⟨⟨r', cached⟩, hstep, rfl⟩ := Option.map_eq_some_iff.1 h
      simp only [hr, Function.update_self]
      exact next_backoff hstep
  · rw [if_neg hi]
    refine .inl ⟨rfl, ?_⟩
    unfold backoff
    split at h
    · obtain rfl := Option.some.inj h
      simp only [Function.update_of_ne (Ne.symm hi)]
    · cases h
    · obtain ⟨⟨r', cached⟩, -, rfl⟩ := Option.map_eq_some_iff.1 h
      simp only [Function.update_of_ne (Ne.symm hi)]

theorem toNat_next_backoff (b cap : UInt64) :
    (min (b * 2) cap).toNat = min (b.toNat * 2 % 2 ^ 64) cap.toNat := by
  have hmul : (b * 2).toNat = b.toNat * 2 % 2 ^ 64 := UInt64.toNat_mul b 2
  have hmin : min (b * 2) cap = if b * 2 ≤ cap then b * 2 else cap := rfl
  rw [← hmul, hmin]
  split_ifs with h
  · exact (min_eq_left (UInt64.le_iff_toNat_le.1 h)).symm
  · exact (min_eq_right (UInt64.lt_iff_toNat_lt.1 (UInt64.not_le.1 h)).le).symm

/-! ## Between the floor and the cap -/

/-- The sleeps so far are paced, and the backoff is in range and no shorter than any of them. -/
structure InRange (cfg : ConsumeConfig) (i : ℕ) (s : Consumer) (ms : List UInt64) : Prop where
  floor : 10 ≤ backoff cfg i s
  cap : backoff cfg i s ≤ cfg.reconnect.maxBackoffMs
  above : ∀ d ∈ ms, d ≤ backoff cfg i s
  paced : Paced cfg.reconnect.maxBackoffMs ms

theorem inRange_step (hcap : cfg.reconnect.maxBackoffMs.toNat < 2 ^ 63) {ms : List UInt64}
    (h : Steps cfg dbg s e s') (hi : InRange cfg i s ms) :
    InRange cfg i s' (ms ++ (sleepOf cfg dbg i s e).toList) := by
  rcases backoff_step (i := i) h with ⟨hsleep, hsame⟩ | ⟨hsleep, hdouble⟩
  · rw [hsleep, Option.toList_none, List.append_nil]
    exact ⟨hsame ▸ hi.floor, hsame ▸ hi.cap, fun d hd => hsame ▸ hi.above d hd, hi.paced⟩
  · rw [hsleep, Option.toList_some]
    -- The backoff is at most the cap, so its double fits and is not shorter.
    have hle : (backoff cfg i s).toNat ≤ cfg.reconnect.maxBackoffMs.toNat :=
      UInt64.le_iff_toNat_le.1 hi.cap
    have hgrow : backoff cfg i s ≤ backoff cfg i s' := by
      rw [UInt64.le_iff_toNat_le, hdouble, toNat_next_backoff, Nat.mod_eq_of_lt (by omega)]
      omega
    have hunder : backoff cfg i s' ≤ cfg.reconnect.maxBackoffMs := by
      rw [UInt64.le_iff_toNat_le, hdouble, toNat_next_backoff]
      exact min_le_right _ _
    have hmem : ∀ d, d ∈ ms ++ [backoff cfg i s] → d ∈ ms ∨ d = backoff cfg i s := by
      intro d hd
      simpa using hd
    refine ⟨UInt64.le_trans hi.floor hgrow, hunder, ?_, ?_, ?_, ?_, ?_⟩
    · intro d hd
      rcases hmem d hd with hold | rfl
      · exact UInt64.le_trans (hi.above d hold) hgrow
      · exact hgrow
    · intro d hd
      rcases hmem d hd with hold | rfl
      · exact hi.paced.floor d hold
      · exact hi.floor
    · intro d hd
      rcases hmem d hd with hold | rfl
      · exact hi.paced.cap d hold
      · exact hi.cap
    · refine List.pairwise_append.2 ⟨hi.paced.ordered, List.pairwise_singleton _ _, ?_⟩
      intro d hd b hb
      rw [List.mem_singleton.1 hb]
      exact hi.above d hd
    · intro d hd
      rcases hmem d hd with hold | rfl
      · exact hi.paced.doubles d hold
      · omega

/-- The sleeps of every run are paced if the first one is below a cap that can be doubled. -/
theorem paced_of_le (hfloor : 10 ≤ cfg.reconnect.initialBackoffMs)
    (hle : cfg.reconnect.initialBackoffMs ≤ cfg.reconnect.maxBackoffMs)
    (hcap : cfg.reconnect.maxBackoffMs.toNat < 2 ^ 63) {cached : Option EndpointId}
    {es : List Event} (h : Run (Steps cfg dbg) (Consumer.init cached) es s) :
    Paced cfg.reconnect.maxBackoffMs (sleeps cfg dbg i (Consumer.init cached) es) := by
  have h0 : InRange cfg i (Consumer.init cached) [] :=
    ⟨hfloor, hle, (fun d hd => by cases hd), (fun d hd => by cases hd),
      (fun d hd => by cases hd), List.Pairwise.nil, fun d hd => by cases hd⟩
  have hrange : InRange cfg i s ([] ++ sleeps cfg dbg i (Consumer.init cached) es) :=
    observed_run (fun u a v ms hs hi => inRange_step hcap hs hi) h h0
  exact hrange.paced

/-! ## A provider that never answers -/

/-- From `s`, `dial_stream` number `i` can sleep for `ms` and come to start over with backoff
`b`. -/
def CanSleep (cfg : ConsumeConfig) (dbg : Debug) (i : ℕ) (s : Consumer) (ms : List UInt64)
    (b : UInt64) : Prop :=
  ∃ es s' r', Run (Steps cfg dbg) s es s' ∧ sleeps cfg dbg i s es = ms ∧
    s'.runs i = some r' ∧ r'.phase = .start ∧ r'.backoffMs = b

/-- A step of the run, and what it can do after it. -/
theorem CanSleep.step {r r' : DialRun} {cached' : Option Provider} {ms ms' : List UInt64}
    {b : UInt64} (act : Act) (hr : s.runs i = some r)
    (hnext : r.next cfg dbg s.cachedProvider s.time act = some (r', cached'))
    (hms : r'.phase.sleep?.toList ++ ms = ms')
    (h : ∀ t : Consumer, t.runs i = some r' → CanSleep cfg dbg i t ms b) :
    CanSleep cfg dbg i s ms' b := by
  obtain ⟨t, ht⟩ : ∃ t : Consumer, t =
    ⟨cached', Function.update s.runs i (some r'), s.time + 1⟩ := ⟨_, rfl⟩
  have hruns : t.runs i = some r' := by
    rw [ht]
    exact Function.update_self _ _ _
  have hs : s.next cfg dbg ⟨i, act⟩ = some t := by
    unfold Consumer.next
    simp only [hr, hnext, Option.map_some, ht]
  have hsleep : sleepOf cfg dbg i s ⟨i, act⟩ = r'.phase.sleep? := by
    unfold sleepOf
    rw [if_pos rfl, hs, Option.bind_some, hruns, Option.bind_some]
  obtain ⟨es, u, q, hrun, hrest, hq⟩ := h t hruns
  refine ⟨⟨i, act⟩ :: es, u, q, .cons hs hrun, ?_, hq⟩
  unfold sleeps at hrest ⊢
  rw [observe, hs, hsleep, Option.map_some, Option.getD_some, hrest, hms]

theorem CanSleep.append {t : Consumer} {es : List Event} {ms ms' : List UInt64} {b : UInt64}
    (hrun : Run (Steps cfg dbg) s es t) (hms : sleeps cfg dbg i s es = ms)
    (h : CanSleep cfg dbg i t ms' b) : CanSleep cfg dbg i s (ms ++ ms') b := by
  obtain ⟨es', u, q, hrun', rfl, hq⟩ := h
  subst hms
  exact ⟨es ++ es', u, q, hrun.append hrun', observe_append hrun es', hq⟩

variable {r : DialRun} {b : UInt64}

theorem canSleep_start (hr : s.runs i = some r) (hp : r.phase = .start) (hb : r.backoffMs = b) :
    CanSleep cfg dbg i s [] b :=
  ⟨[], s, r, .nil s, rfl, hr, hp, hb⟩

theorem canSleep_sleeping {ms : UInt64} (hr : s.runs i = some r) (hp : r.phase = .sleeping ms)
    (hb : r.backoffMs = b) : CanSleep cfg dbg i s [] b := by
  have hnext : r.next cfg dbg s.cachedProvider s.time .wake =
      some ({ r with phase := .start }, s.cachedProvider) := by
    simp only [DialRun.next, hp]
  exact .step .wake hr hnext rfl fun t ht => canSleep_start ht rfl hb

theorem canSleep_relay {p : Provider} (hr : s.runs i = some r) (hp : r.phase = .relay p)
    (hb : r.backoffMs = b) :
    CanSleep cfg dbg i s [b] (min (b * 2) cfg.reconnect.maxBackoffMs) := by
  subst hb
  have hnext : r.next cfg dbg s.cachedProvider s.time (.relay timedOut) =
      some (⟨.sleeping r.backoffMs, min (r.backoffMs * 2) cfg.reconnect.maxBackoffMs,
        noteRejection (.connect "timed out") s.time r⟩, s.cachedProvider) := by
    simp only [DialRun.next, hp]
    rfl
  exact .step (.relay timedOut) hr hnext rfl fun t ht => canSleep_sleeping ht rfl rfl

/-- A direct dial that nobody answers goes on to the relay, by way of the cache if its error reads
like a rejection. -/
theorem canSleep_direct {p : Provider} (hr : s.runs i = some r) (hp : r.phase = .direct p)
    (hb : r.backoffMs = b) :
    CanSleep cfg dbg i s [b] (min (b * 2) cfg.reconnect.maxBackoffMs) := by
  obtain ⟨f, hf⟩ : ∃ f, dialDirect cfg.name timedOut = .error f := by
    unfold dialDirect
    cases (alpnForService cfg.name).mapError DialFailure.alpn with
    | error f => exact ⟨f, rfl⟩
    | ok a => exact ⟨.connect "timed out", rfl⟩
  cases hauth : isAuthError (f.message dbg) with
  | false =>
    have hnext : r.next cfg dbg s.cachedProvider s.time (.direct timedOut) =
        some ({ r with phase := .relay p, rejectedAt := noteRejection f s.time r },
          s.cachedProvider) := by
      simp only [DialRun.next, hp, hf, hauth, Bool.false_eq_true, if_false]
    exact .step (.direct timedOut) hr hnext rfl fun t ht => canSleep_relay ht rfl hb
  | true =>
    have hnext : r.next cfg dbg s.cachedProvider s.time (.direct timedOut) =
        some ({ r with phase := .invalidating p, rejectedAt := noteRejection f s.time r },
          s.cachedProvider) := by
      simp only [DialRun.next, hp, hf, hauth, if_true]
    refine .step (.direct timedOut) hr hnext rfl fun t ht => ?_
    exact .step .invalidate ht rfl rfl fun u hu => canSleep_relay hu rfl hb

theorem canSleep_attempt {p : Provider} (hr : s.runs i = some r) (hp : r.phase = attempt cfg p)
    (hb : r.backoffMs = b) :
    CanSleep cfg dbg i s [b] (min (b * 2) cfg.reconnect.maxBackoffMs) := by
  unfold attempt at hp
  split_ifs at hp with hdirect
  · exact canSleep_direct hr hp hb
  · exact canSleep_relay hr hp hb

/-- **A pass that fails** sleeps for the backoff and doubles it. -/
theorem canSleep_pass (hr : s.runs i = some r) (hp : r.phase = .start) (hb : r.backoffMs = b) :
    CanSleep cfg dbg i s [b] (min (b * 2) cfg.reconnect.maxBackoffMs) := by
  have hquiet : ∀ p, (attempt cfg p).sleep?.toList ++ [b] = [b] := by
    intro p
    rw [sleep?_attempt]
    rfl
  cases hcached : s.cachedProvider with
  | some p =>
    have hnext : r.next cfg dbg s.cachedProvider s.time .look =
        some ({ r with phase := attempt cfg p }, s.cachedProvider) := by
      simp only [DialRun.next, hp, hcached]
    exact .step .look hr hnext (hquiet p) fun t ht => canSleep_attempt ht rfl hb
  | none =>
    have hnext : r.next cfg dbg s.cachedProvider s.time .look =
        some ({ r with phase := .subscribing s.time }, s.cachedProvider) := by
      simp only [DialRun.next, hp, hcached]
    refine .step .look hr hnext rfl fun t ht => ?_
    refine .step (.subscribed (.ok samplePeer)) ht rfl rfl fun u hu => ?_
    exact .step .store hu rfl (hquiet ⟨samplePeer, s.time⟩) fun v hv => canSleep_attempt hv rfl hb

/-- The sleeps of `n` passes that fail. -/
def waits (cap : UInt64) : ℕ → UInt64 → List UInt64
  | 0, _ => []
  | n + 1, b => b :: waits cap n (min (b * 2) cap)

/-- **Any number of passes can fail.** -/
theorem canSleep_waits (n : ℕ) {s : Consumer} {r : DialRun} {b : UInt64} (hr : s.runs i = some r)
    (hp : r.phase = .start) (hb : r.backoffMs = b) :
    ∃ b', CanSleep cfg dbg i s (waits cfg.reconnect.maxBackoffMs n b) b' := by
  induction n generalizing s r b with
  | zero => exact ⟨b, canSleep_start hr hp hb⟩
  | succ n ih =>
    have hpass : CanSleep cfg dbg i s [b] _ := canSleep_pass hr hp hb
    obtain ⟨es, t, q, hrun, hms, hq, hqp, hqb⟩ := hpass
    obtain ⟨b', hrest⟩ := ih hq hqp hqb
    exact ⟨b', .append hrun hms hrest⟩

/-- A backoff that is not capped below `2 ^ 63` gets there. -/
theorem waits_long {cap : UInt64} (hcap : 2 ^ 63 ≤ cap.toNat) {b : UInt64} (hpos : 0 < b.toNat) :
    ∃ n, ∃ d ∈ waits cap n b, 2 ^ 63 ≤ d.toNat := by
  obtain ⟨k, hk⟩ : ∃ k, 2 ^ 63 ≤ b.toNat + k := ⟨2 ^ 63, Nat.le_add_left _ _⟩
  induction k generalizing b with
  | zero => exact ⟨1, b, List.mem_singleton_self b, hk⟩
  | succ k ih =>
    by_cases hnow : 2 ^ 63 ≤ b.toNat
    · exact ⟨1, b, List.mem_singleton_self b, hnow⟩
    · -- The double fits, and is at least one more.
      have hdouble : (min (b * 2) cap).toNat = min (b.toNat * 2) cap.toNat := by
        rw [toNat_next_backoff, Nat.mod_eq_of_lt (by omega)]
      obtain ⟨n, d, hd, hlong⟩ :=
        ih (b := min (b * 2) cap) (by rw [hdouble]; omega) (by rw [hdouble]; omega)
      exact ⟨n + 1, d, List.mem_cons_of_mem b hd, hlong⟩

end Steps

/-! ## Exactly when -/

/-- A `dial_stream` of a fresh consumer can sleep for the backoffs of any number of failed
passes. -/
theorem canSleep_init (cfg : ConsumeConfig) (dbg : Debug) (n : ℕ) :
    ∃ b, CanSleep cfg dbg 0 (Consumer.init none)
      (waits cfg.reconnect.maxBackoffMs n cfg.reconnect.initialBackoffMs) b := by
  obtain ⟨s, hs⟩ : ∃ s, s = (⟨none, Function.update (fun _ => none) 0
    (some ⟨.start, cfg.reconnect.initialBackoffMs, none⟩), 2⟩ : Consumer) := ⟨_, rfl⟩
  have hbegin : Consumer.next cfg dbg (Consumer.init none) ⟨0, .begin⟩ = some s := hs ▸ rfl
  have hr : s.runs 0 = some ⟨.start, cfg.reconnect.initialBackoffMs, none⟩ := hs ▸ rfl
  obtain ⟨b, hwaits⟩ := canSleep_waits n hr rfl rfl
  exact ⟨b, .append (.cons hbegin (.nil s)) rfl hwaits⟩

/-- **The pace of `dial_stream`.** For every pair of configured values: the sleeps of every
`dial_stream` in every run are at least 10 ms and at most the cap, never get shorter, and are
doubled without overflow, just when the initial backoff is below the cap once both are clamped
and the cap is below `2 ^ 63`. -/
theorem paced_iff (name : String) (reconnect : ReconnectConfig) (dbg : Debug) :
    (∀ cached es s i, Run (Steps ⟨name, reconnect.clamped⟩ dbg) (Consumer.init cached) es s →
      Paced reconnect.clamped.maxBackoffMs
        (sleeps ⟨name, reconnect.clamped⟩ dbg i (Consumer.init cached) es)) ↔
    max reconnect.initialBackoffMs.toNat 10 ≤ max reconnect.maxBackoffMs.toNat 100 ∧
      reconnect.maxBackoffMs.toNat < 2 ^ 63 := by
  have hinitial : reconnect.clamped.initialBackoffMs.toNat =
      max reconnect.initialBackoffMs.toNat 10 := toNat_clampBackoff _ 10
  have hmax : reconnect.clamped.maxBackoffMs.toNat = max reconnect.maxBackoffMs.toNat 100 :=
    toNat_clampBackoff _ 100
  constructor
  · intro hpaced
    have hwaits : ∀ n, Paced reconnect.clamped.maxBackoffMs
        (waits reconnect.clamped.maxBackoffMs n reconnect.clamped.initialBackoffMs) := by
      intro n
      obtain ⟨b, es, s, r, hrun, hms, -⟩ := canSleep_init ⟨name, reconnect.clamped⟩ dbg n
      have := hpaced none es s 0 hrun
      rwa [hms] at this
    refine ⟨?_, ?_⟩
    · have := (hwaits 1).cap _ List.mem_cons_self
      rwa [UInt64.le_iff_toNat_le, hinitial, hmax] at this
    · by_contra hlarge
      have hpos : 0 < reconnect.clamped.initialBackoffMs.toNat := by omega
      have hcap : 2 ^ 63 ≤ reconnect.clamped.maxBackoffMs.toNat := by omega
      obtain ⟨n, d, hd, hlong⟩ := waits_long hcap hpos
      have := (hwaits n).doubles d hd
      omega
  · rintro ⟨hle, hcap⟩ cached es s i hrun
    refine paced_of_le ?_ ?_ ?_ hrun
    · rw [UInt64.le_iff_toNat_le]
      show 10 ≤ reconnect.clamped.initialBackoffMs.toNat
      omega
    · rw [UInt64.le_iff_toNat_le]
      show reconnect.clamped.initialBackoffMs.toNat ≤ reconnect.clamped.maxBackoffMs.toNat
      omega
    · show reconnect.clamped.maxBackoffMs.toNat < 2 ^ 63
      omega

/-- An initial backoff above the cap, and nobody answers. -/
def slowStart : ReconnectConfig := { initialBackoffMs := 10000, preferDirect := false }

def failedPass : List Event := [⟨0, .look⟩, ⟨0, .relay timedOut⟩, ⟨0, .wake⟩]

theorem exec_slowStart :
    (exec (Consumer.next ⟨"web", slowStart.clamped⟩ plain) (Consumer.init (some samplePeer))
      (⟨0, .begin⟩ :: failedPass ++ failedPass)).isSome := by
  decide

/-- The first sleep is twice the cap, and the second one shorter. -/
theorem slowStart_sleeps :
    ∃ s, Run (Steps ⟨"web", slowStart.clamped⟩ plain) (Consumer.init (some samplePeer))
        (⟨0, .begin⟩ :: failedPass ++ failedPass) s ∧
      slowStart.clamped.maxBackoffMs = 5000 ∧
      sleeps ⟨"web", slowStart.clamped⟩ plain 0 (Consumer.init (some samplePeer))
        (⟨0, .begin⟩ :: failedPass ++ failedPass) = [10000, 5000] ∧
      ¬Paced slowStart.clamped.maxBackoffMs [10000, 5000] := by
  refine ⟨_, run_of_exec (Option.some_get exec_slowStart).symm, rfl, rfl, fun h => ?_⟩
  exact absurd (h.cap 10000 List.mem_cons_self) (by decide)

end MeshlyCore.Client
