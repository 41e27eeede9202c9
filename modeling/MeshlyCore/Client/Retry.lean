import MeshlyCore.Client.Dial

/-!
# `dial_stream` does not give up

A `dial_stream` tries again as long as it takes, and returns an error only when a subscribe fails.
Each pass through its loop is short: between two sleeps it takes at most six steps, whatever other
streams do to the cache meanwhile.

**Theorem (`dial_completes`).** A `dial_stream` with `k` relayed dials that fail takes at most
`7 * (k + 1)` steps; it can go on as long as it has not returned, with whatever answer it gets; and
it has returned a stream only if a dial has succeeded, and an error only if a subscribe has failed.
-/

namespace MeshlyCore.Client

open Protocol Alpn Machine

/-- The steps until it has returned or sleeps, at most; after a sleep it begins anew. -/
def Phase.stepsLeft : Phase → ℕ
  | .done _ => 0
  | .relay _ => 1
  | .invalidating _ => 2
  | .direct _ => 3
  | .storing _ => 4
  | .subscribing _ => 5
  | .start => 6
  | .sleeping _ => 7

def stepsLeft (i : ℕ) (s : Consumer) : ℕ := (s.runs i).elim 7 fun r => r.phase.stepsLeft

/-- A step of `dial_stream` number `i`. -/
def Event.isOf (i : ℕ) (e : Event) : Bool := e.run = i

/-- Its relayed dial fails. -/
def Event.relayFails (i : ℕ) (e : Event) : Bool :=
  match e.act with
  | .relay x => e.run = i ∧ (dialRelay x).isOk = false
  | _ => false

/-- What a phase waits for: a step of its own, or any answer to what it has asked. -/
inductive Phase.Awaits : Phase → Act → Prop
  | look : Awaits .start .look
  | subscribed {since : ℕ} {res : Except String EndpointId} :
      Awaits (.subscribing since) (.subscribed res)
  | store {p : Provider} : Awaits (.storing p) .store
  | direct {p : Provider} {x : Exchange} : Awaits (.direct p) (.direct x)
  | invalidate {p : Provider} : Awaits (.invalidating p) .invalidate
  | relay {p : Provider} {x : Exchange} : Awaits (.relay p) (.relay x)
  | wake {ms : UInt64} : Awaits (.sleeping ms) .wake

/-- Why a `dial_stream` has returned. -/
inductive Returns (cfg : ConsumeConfig) (i : ℕ) (es : List Event) : Except String Unit → Prop
  | direct {x : Exchange} (mem : ⟨i, .direct x⟩ ∈ es) (dial : dialDirect cfg.name x = .ok ()) :
      Returns cfg i es (.ok ())
  | relay {x : Exchange} (mem : ⟨i, .relay x⟩ ∈ es) (dial : dialRelay x = .ok ()) :
      Returns cfg i es (.ok ())
  | unsubscribed {err : String} (mem : ⟨i, .subscribed (.error err)⟩ ∈ es) :
      Returns cfg i es (.error err)

section Steps

variable {cfg : ConsumeConfig} {dbg : Debug} {s s' : Consumer} {e : Event} {es : List Event} {i : ℕ}

theorem stepsLeft_attempt (cfg : ConsumeConfig) (p : Provider) : (attempt cfg p).stepsLeft ≤ 3 := by
  unfold attempt
  split <;> simp [Phase.stepsLeft]

/-- A step of a run leads on, or from a relayed dial that fails to a sleep. -/
theorem stepsLeft_next {cached cached' : Option Provider} {time : ℕ} {act : Act} {r r' : DialRun}
    (h : r.next cfg dbg cached time act = some (r', cached')) :
    r'.phase.stepsLeft < r.phase.stepsLeft ∨
      r.phase.stepsLeft = 1 ∧ r'.phase.stepsLeft = 7 ∧
        ∃ x f, act = .relay x ∧ dialRelay x = .error f := by
  cases dial_move h with
  | @hit p phase =>
    have hle := stepsLeft_attempt cfg p
    rw [phase]
    exact .inl (Nat.lt_of_le_of_lt hle (by decide))
  | @store p phase =>
    have hle := stepsLeft_attempt cfg p
    rw [phase]
    exact .inl (Nat.lt_succ_of_le hle)
  | directErr phase =>
    rw [phase]
    split
    · exact .inl (Nat.lt_succ_self 2)
    · exact .inl (Nat.succ_lt_succ (Nat.succ_pos 1))
  | @relayErr p x f phase dial => exact .inr ⟨by rw [phase]; rfl, rfl, x, f, rfl, dial⟩
  | miss phase => simp [phase, Phase.stepsLeft]
  | subscribed phase => simp [phase, Phase.stepsLeft]
  | unsubscribed phase => simp [phase, Phase.stepsLeft]
  | directOk phase => simp [phase, Phase.stepsLeft]
  | invalidate phase => simp [phase, Phase.stepsLeft]
  | relayOk phase => simp [phase, Phase.stepsLeft]
  | wake phase => simp [phase, Phase.stepsLeft]

/-- A step starts a run or moves it, or is one of another run. -/
theorem run_cases (h : Steps cfg dbg s e s') (i : ℕ) :
    (e.isOf i = false ∧ s'.runs i = s.runs i) ∨
    (e = ⟨i, .begin⟩ ∧ s.runs i = none ∧
      s'.runs i = some ⟨.start, cfg.reconnect.initialBackoffMs, none⟩) ∨
    ∃ act r r' cached, e = ⟨i, act⟩ ∧ s.runs i = some r ∧ s'.runs i = some r' ∧
      r.next cfg dbg s.cachedProvider s.time act = some (r', cached) := by
  unfold Steps stepOf Consumer.next at h
  obtain ⟨j, act⟩ := e
  by_cases hij : j = i
  · subst hij
    right
    split at h
    · rename_i hr hact
      obtain rfl := Option.some.inj h
      exact .inl ⟨congrArg _ hact, hr, Function.update_self ..⟩
    · cases h
    · rename_i r hr
      obtain ⟨⟨r', cached⟩, hnext, rfl⟩ := Option.map_eq_some_iff.1 h
      exact .inr ⟨act, r, r', cached, rfl, hr, Function.update_self .., hnext⟩
  · refine .inl ⟨by simpa [Event.isOf] using hij, ?_⟩
    split at h
    · obtain rfl := Option.some.inj h
      exact Function.update_of_ne (Ne.symm hij) ..
    · cases h
    · obtain ⟨⟨r', cached⟩, -, rfl⟩ := Option.map_eq_some_iff.1 h
      exact Function.update_of_ne (Ne.symm hij) ..

/-- A step takes one from what is left, if it is one of the run's, and a relayed dial that fails
gives seven. -/
theorem stepsLeft_step (i : ℕ) (h : Steps cfg dbg s e s') :
    stepsLeft i s' + (e.isOf i).toNat ≤ stepsLeft i s + 7 * (e.relayFails i).toNat := by
  unfold stepsLeft
  rcases run_cases h i with ⟨hother, hsame⟩ | ⟨rfl, hnone, hstart⟩ |
      ⟨act, r, r', cached, rfl, hr, hr', hnext⟩
  · rw [hother, hsame]
    exact Nat.le_add_right _ _
  · rw [hnone, hstart]
    simp [Phase.stepsLeft, Event.isOf]
  · rw [hr, hr']
    have hone : (Event.mk i act).isOf i = true := by simp [Event.isOf]
    rw [hone]
    show r'.phase.stepsLeft + 1 ≤ r.phase.stepsLeft + _
    rcases stepsLeft_next hnext with hlt | ⟨hleft, hseven, x, f, rfl, hdial⟩
    · exact (Nat.succ_le_of_lt hlt).trans (Nat.le_add_right _ _)
    · have hfails : (Event.mk i (.relay x)).relayFails i = true := by
        simp [Event.relayFails, hdial, Except.isOk, Except.toBool]
      rw [hleft, hseven, hfails]
      exact le_rfl

/-- **A `dial_stream` goes on**, whatever answer it gets. -/
theorem dial_enabled {r : DialRun} (hr : s.runs i = some r) {act : Act}
    (hact : r.phase.Awaits act) : ∃ s', Steps cfg dbg s ⟨i, act⟩ s' := by
  have hsome : (r.next cfg dbg s.cachedProvider s.time act).isSome := by
    generalize hphase : r.phase = p at hact
    cases hact with
    | look => cases hc : s.cachedProvider <;> simp [DialRun.next, hphase]
    | @subscribed since res => cases res <;> simp [DialRun.next, hphase]
    | @direct p x => cases hdial : dialDirect cfg.name x <;> simp [DialRun.next, hphase, hdial]
    | @relay p x => cases hdial : dialRelay x <;> simp [DialRun.next, hphase, hdial]
    | _ => simp [DialRun.next, hphase]
  obtain ⟨⟨r', cached⟩, hnext⟩ := Option.isSome_iff_exists.1 hsome
  refine ⟨⟨cached, Function.update s.runs i (some r'), s.time + 1⟩, ?_⟩
  show Consumer.next cfg dbg s ⟨i, act⟩ = _
  simp [Consumer.next, hr, hnext]

theorem exists_awaits {p : Phase} (h : ∀ res, p ≠ .done res) : ∃ act, p.Awaits act := by
  cases p with
  | start => exact ⟨_, .look⟩
  | subscribing since => exact ⟨.subscribed (.error "timed out"), .subscribed⟩
  | storing p => exact ⟨_, .store⟩
  | direct p => exact ⟨.direct timedOut, .direct⟩
  | invalidating p => exact ⟨_, .invalidate⟩
  | relay p => exact ⟨.relay timedOut, .relay⟩
  | sleeping ms => exact ⟨_, .wake⟩
  | done res => exact absurd rfl (h res)

theorem Returns.mono {es' : List Event} {res : Except String Unit} (h : Returns cfg i es res)
    (hle : es ⊆ es') : Returns cfg i es' res := by
  cases h with
  | direct mem dial => exact .direct (hle mem) dial
  | relay mem dial => exact .relay (hle mem) dial
  | unsubscribed mem => exact .unsubscribed (hle mem)

/-- A run that returns has a reason. -/
theorem returns_of_next {cached cached' : Option Provider} {time : ℕ} {act : Act} {r r' : DialRun}
    (h : r.next cfg dbg cached time act = some (r', cached')) {res : Except String Unit}
    (hdone : r'.phase = .done res) : Returns cfg i [⟨i, act⟩] res := by
  have hattempt : ∀ p, attempt cfg p ≠ .done res := by
    intro p
    unfold attempt
    split <;> simp
  cases dial_move h with
  | hit => exact absurd hdone (hattempt _)
  | store => exact absurd hdone (hattempt _)
  | unsubscribed =>
    obtain rfl := Phase.done.inj hdone
    exact .unsubscribed (List.mem_singleton.2 rfl)
  | directOk _ dial =>
    obtain rfl := Phase.done.inj hdone
    exact .direct (List.mem_singleton.2 rfl) dial
  | relayOk _ dial =>
    obtain rfl := Phase.done.inj hdone
    exact .relay (List.mem_singleton.2 rfl) dial
  | directErr =>
    simp only at hdone
    split at hdone <;> cases hdone
  | _ => cases hdone

theorem returns_run {cached : Option EndpointId}
    (hrun : Run (Steps cfg dbg) (Consumer.init cached) es s) {r : DialRun}
    (hr : s.runs i = some r) {res : Except String Unit} (hdone : r.phase = .done res) :
    Returns cfg i es res := by
  revert r
  refine Run.snoc_induction (motive := fun es s => ∀ {r : DialRun}, s.runs i = some r →
    r.phase = .done res → Returns cfg i es res) ?_ ?_ hrun
  · intro r hr
    cases hr
  · intro es s e s' _ ih hstep r' hr' hdone
    rcases run_cases hstep i with ⟨-, hsame⟩ | ⟨-, -, hstart⟩ |
        ⟨act, r, r'', cached, rfl, hr, hr'', hnext⟩
    · exact (ih (hsame ▸ hr') hdone).mono (List.subset_append_left _ _)
    · cases hstart.symm.trans hr'
      cases hdone
    · cases hr'.symm.trans hr''
      exact (returns_of_next hnext hdone).mono (List.subset_append_right _ _)

/-- **A `dial_stream` does not give up.** With `k` relayed dials that fail it takes at most
`7 * (k + 1)` steps, whatever other streams do. As long as it has not returned it waits for a step
of its own or for an answer, and it goes on with any. And it returns a stream only after a dial that
succeeded, and an error only after a subscribe that failed. -/
theorem dial_completes {cached : Option EndpointId}
    (hrun : Run (Steps cfg dbg) (Consumer.init cached) es s) (i : ℕ) :
    es.countP (Event.isOf i) ≤ 7 * (es.countP (Event.relayFails i) + 1) ∧
      ∀ r, s.runs i = some r →
        (∀ act, r.phase.Awaits act → ∃ s', Steps cfg dbg s ⟨i, act⟩ s') ∧
        ((∃ act, r.phase.Awaits act) ∨ ∃ res, r.phase = .done res ∧ Returns cfg i es res) := by
  constructor
  · have hle : stepsLeft i s + es.countP (Event.isOf i) ≤
        stepsLeft i (Consumer.init cached) + 7 * es.countP (Event.relayFails i) :=
      hrun.countP_le fun _ _ _ hs => stepsLeft_step i hs
    have hinit : stepsLeft i (Consumer.init cached) = 7 := rfl
    omega
  · intro r hr
    refine ⟨fun act => dial_enabled hr, ?_⟩
    by_cases hdone : ∃ res, r.phase = .done res
    · obtain ⟨res, hres⟩ := hdone
      exact .inr ⟨res, hres, returns_run hrun hr hres⟩
    · push Not at hdone
      exact .inl (exists_awaits hdone)

end Steps

/-- The first stream of the sample, with one relayed dial that fails. -/
theorem dial_completes_retried :
    ∃ es, Run (Steps directFirst plain) (Consumer.init none) es retried ∧
      es.countP (Event.isOf 0) ≤ 7 * (es.countP (Event.relayFails 0) + 1) := by
  have hhead := run_of_exec (Option.some_get exec_cleared).symm
  have htail := run_of_exec (Option.some_get exec_retried).symm
  have hrun := hhead.append (.cons (Option.some_get step_cleared).symm htail)
  exact ⟨_, hrun, (dial_completes hrun 0).1⟩

end MeshlyCore.Client
