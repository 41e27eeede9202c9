import MeshlyCore.Relay.Admission

/-!
# The tasks of the relay and their rates

`run_relay` and the stream bookkeeping of `registry.rs`: a relay task that has reached its
provider takes a stream id, puts its rate handle under that id into a map of the server, copies
with the handle in hand, and takes the id out of the map when the copy is over, well or not.
`update_relay_rate` finds a handle in the map and writes to it.

Any number of tasks run at once, and a step here is one access of one of them to what they share.
Between the entry in the map and its removal a task touches nothing shared but its own handle, so
it counts as copying from the one to the other. A task without a rate gets an id too, and removes
an entry it never made.

**Theorem (`rates_consistent`).** In every run with fewer than `2 ^ 64` allocations: the map holds
the throttled tasks that are copying, under ids that belong to one task each, with the handles
their copy loops read; and an update changes the rate of the task it names and of no other.
-/

namespace MeshlyCore.Relay

open Registry Machine

/-! ## Tasks -/

/-- An `Arc<AtomicU64>`, by the number of those made before it. -/
abbrev RateLimitHandle := ℕ

inductive TaskPhase where
  /-- In `connect` or `open_bi`. -/
  | dialing
  | opened
  | allocated (streamId : UInt64)
  /-- In `copy_bidirectional`, with the handle it throttles by. -/
  | copying (streamId : UInt64) (replyBps : Option RateLimitHandle)
  /-- `run_relay` has returned, with the id it had. -/
  | ended (streamId : Option UInt64) (ok : Bool)
  deriving DecidableEq

structure RelayTask where
  tunnel : Tunnel
  phase : TaskPhase
  deriving DecidableEq

/-- What the relay tasks share, and the tasks themselves. -/
structure RelayTasks where
  nextStreamId : UInt64
  relayRates : Finmap fun _ : UInt64 => RateLimitHandle
  /-- The values of the handles. -/
  rates : RateLimitHandle → UInt64
  /-- How many handles there are. -/
  handles : ℕ
  tasks : ℕ → Option RelayTask

namespace RelayTasks

def init : RelayTasks := ⟨1, ∅, fun _ => 0, 0, fun _ => none⟩

/-! ## The bookkeeping of the server -/

/-- Allocate a fresh `stream_id` for a new relay task. -/
def allocStreamId (s : RelayTasks) : UInt64 × RelayTasks :=
  (s.nextStreamId, { s with nextStreamId := s.nextStreamId + 1 })

/-- Register a relay task's rate handle under `stream_id`. -/
def registerRelayRate (streamId : UInt64) (handle : RateLimitHandle) (s : RelayTasks) :
    RelayTasks :=
  { s with relayRates := s.relayRates.insert streamId handle }

/-- Remove a relay's rate handle when the task ends. -/
def unregisterRelayRate (streamId : UInt64) (s : RelayTasks) : RelayTasks :=
  { s with relayRates := s.relayRates.erase streamId }

/-- Update the reply bandwidth cap of a single relay connection, and say whether it was found. -/
def updateRelayRate (streamId bytesPerSec : UInt64) (s : RelayTasks) : Bool × RelayTasks :=
  match s.relayRates.lookup streamId with
  | some h => (true, { s with rates := Function.update s.rates h bytesPerSec })
  | none => (false, s)

/-- `Arc::new(AtomicU64::new(bps))`. -/
def newHandle (bps : UInt64) (s : RelayTasks) : RateLimitHandle × RelayTasks :=
  (s.handles, { s with rates := Function.update s.rates s.handles bps, handles := s.handles + 1 })

def setPhase (i : ℕ) (t : Tunnel) (phase : TaskPhase) (s : RelayTasks) : RelayTasks :=
  { s with tasks := Function.update s.tasks i (some ⟨t, phase⟩) }

end RelayTasks

/-! ## Steps -/

inductive TaskEvent where
  /-- `accept_loop` spawns `run_relay`. -/
  | spawn (i : ℕ) (t : Tunnel)
  /-- The provider is reached and the stream open, or not. -/
  | reach (i : ℕ) (ok : Bool)
  | alloc (i : ℕ)
  | register (i : ℕ)
  /-- The copy ends. -/
  | finish (i : ℕ) (ok : Bool)
  | update (streamId bytesPerSec : UInt64)
  deriving DecidableEq

def TaskEvent.isAlloc : TaskEvent → Bool
  | .alloc _ => true
  | _ => false

/-- One step of a task, or of whoever changes a rate. -/
def RelayTasks.next (s : RelayTasks) : TaskEvent → Option RelayTasks
  | .spawn i t =>
      match s.tasks i with
      | none => some (s.setPhase i t .dialing)
      | some _ => none
  | .reach i ok =>
      match s.tasks i with
      | some ⟨t, .dialing⟩ =>
          match runRelayDial t, ok with
          | .ok _, true => some (s.setPhase i t .opened)
          | _, _ => some (s.setPhase i t (.ended none false))
      | _ => none
  | .alloc i =>
      match s.tasks i with
      | some ⟨t, .opened⟩ =>
          let (streamId, s) := s.allocStreamId
          some (s.setPhase i t (.allocated streamId))
      | _ => none
  | .register i =>
      match s.tasks i with
      | some ⟨t, .allocated streamId⟩ =>
          match t.initialReplyBps with
          | some bps =>
              let (handle, s) := s.newHandle bps
              some ((s.registerRelayRate streamId handle).setPhase i t
                (.copying streamId (some handle)))
          | none => some (s.setPhase i t (.copying streamId none))
      | _ => none
  | .finish i ok =>
      match s.tasks i with
      | some ⟨t, .copying streamId _⟩ =>
          some ((s.unregisterRelayRate streamId).setPhase i t (.ended (some streamId) ok))
      | _ => none
  | .update streamId bytesPerSec => some (s.updateRelayRate streamId bytesPerSec).2

abbrev TaskSteps : RelayTasks → TaskEvent → RelayTasks → Prop := stepOf RelayTasks.next

/-! ## Ids and handles -/

/-- The id a task was given. -/
def TaskPhase.id? : TaskPhase → Option UInt64
  | .allocated id => some id
  | .copying id _ => some id
  | .ended id _ => id
  | _ => none

/-- The id and the handle of a throttled task that is copying. -/
def TaskPhase.copy? : TaskPhase → Option (UInt64 × RateLimitHandle)
  | .copying id (some h) => some (id, h)
  | _ => none

theorem TaskPhase.id?_of_copy? {ph : TaskPhase} {id : UInt64} {h : RateLimitHandle}
    (hcopy : ph.copy? = some (id, h)) : ph.id? = some id := by
  unfold TaskPhase.copy? at hcopy
  split at hcopy
  · rw [← (Prod.mk.inj (Option.some.inj hcopy)).1]
    rfl
  · cases hcopy

namespace RelayTasks

/-- The id task `i` was given, also when it has ended. -/
def idOf (s : RelayTasks) (i : ℕ) : Option UInt64 := (s.tasks i).bind fun task => task.phase.id?

def copyOf (s : RelayTasks) (i : ℕ) : Option (UInt64 × RateLimitHandle) :=
  (s.tasks i).bind fun task => task.phase.copy?

/-- The rate the copy loop of task `i` reads. -/
def rateOf (s : RelayTasks) (i : ℕ) : Option UInt64 := (s.copyOf i).map fun c => s.rates c.2

theorem idOf_of_copyOf {s : RelayTasks} {i : ℕ} {id : UInt64} {h : RateLimitHandle}
    (hcopy : s.copyOf i = some (id, h)) : s.idOf i = some id := by
  obtain ⟨task, htask, hphase⟩ := Option.bind_eq_some_iff.1 hcopy
  exact Option.bind_eq_some_iff.2 ⟨task, htask, TaskPhase.id?_of_copy? hphase⟩

theorem idOf_setPhase (i : ℕ) (t : Tunnel) (ph : TaskPhase) (s : RelayTasks) :
    (s.setPhase i t ph).idOf = Function.update s.idOf i ph.id? := by
  funext j
  by_cases hj : j = i
  · subst hj
    simp [idOf, setPhase]
  · simp [idOf, setPhase, Function.update_of_ne hj]

theorem copyOf_setPhase (i : ℕ) (t : Tunnel) (ph : TaskPhase) (s : RelayTasks) :
    (s.setPhase i t ph).copyOf = Function.update s.copyOf i ph.copy? := by
  funext j
  by_cases hj : j = i
  · subst hj
    simp [copyOf, setPhase]
  · simp [copyOf, setPhase, Function.update_of_ne hj]

/-- Setting a phase with the same id changes no id. -/
theorem idOf_setPhase_same {i : ℕ} {s : RelayTasks} (t : Tunnel) (ph : TaskPhase)
    (hid : s.idOf i = ph.id?) : (s.setPhase i t ph).idOf = s.idOf := by
  rw [idOf_setPhase, ← hid]
  exact Function.update_eq_self i s.idOf

/-- Setting a phase with the same handle changes no handle. -/
theorem copyOf_setPhase_same {i : ℕ} {s : RelayTasks} (t : Tunnel) (ph : TaskPhase)
    (hcopy : s.copyOf i = ph.copy?) : (s.setPhase i t ph).copyOf = s.copyOf := by
  rw [copyOf_setPhase, ← hcopy]
  exact Function.update_eq_self i s.copyOf

end RelayTasks

/-- What a step does to the ids, to the handles in use and to the map. -/
inductive TaskChange (s : RelayTasks) : TaskEvent → RelayTasks → Prop
  | quiet {e : TaskEvent} {s' : RelayTasks} (event : e.isAlloc = false) (ids : s'.idOf = s.idOf)
      (copies : s'.copyOf = s.copyOf) (map : s'.relayRates = s.relayRates)
      (next : s'.nextStreamId = s.nextStreamId) (handles : s'.handles = s.handles) :
      TaskChange s e s'
  | alloc {i : ℕ} {s' : RelayTasks} (fresh : s.idOf i = none)
      (ids : s'.idOf = Function.update s.idOf i (some s.nextStreamId))
      (copies : s'.copyOf = s.copyOf) (map : s'.relayRates = s.relayRates)
      (next : s'.nextStreamId = s.nextStreamId + 1) (handles : s'.handles = s.handles) :
      TaskChange s (.alloc i) s'
  | register {i : ℕ} {id : UInt64} {s' : RelayTasks} (own : s.idOf i = some id)
      (idle : s.copyOf i = none) (ids : s'.idOf = s.idOf)
      (copies : s'.copyOf = Function.update s.copyOf i (some (id, s.handles)))
      (map : s'.relayRates = s.relayRates.insert id s.handles)
      (next : s'.nextStreamId = s.nextStreamId) (handles : s'.handles = s.handles + 1) :
      TaskChange s (.register i) s'
  | finish {i : ℕ} {id : UInt64} {ok : Bool} {s' : RelayTasks} (own : s.idOf i = some id)
      (ids : s'.idOf = s.idOf) (copies : s'.copyOf = Function.update s.copyOf i none)
      (map : s'.relayRates = s.relayRates.erase id) (next : s'.nextStreamId = s.nextStreamId)
      (handles : s'.handles = s.handles) :
      TaskChange s (.finish i ok) s'

section Steps

variable {s s' : RelayTasks} {e : TaskEvent}

theorem idOf_of_task {i : ℕ} {t : Tunnel} {ph : TaskPhase} (h : s.tasks i = some ⟨t, ph⟩) :
    s.idOf i = ph.id? := by
  rw [RelayTasks.idOf, h, Option.bind_some]

theorem copyOf_of_task {i : ℕ} {t : Tunnel} {ph : TaskPhase} (h : s.tasks i = some ⟨t, ph⟩) :
    s.copyOf i = ph.copy? := by
  rw [RelayTasks.copyOf, h, Option.bind_some]

/-- A step to a phase with the same id and the same handle. -/
theorem TaskChange.of_same {i : ℕ} {t t' : Tunnel} {ph ph' : TaskPhase} (event : e.isAlloc = false)
    (h : s.tasks i = some ⟨t, ph⟩) (hid : ph.id? = ph'.id?) (hcopy : ph.copy? = ph'.copy?) :
    TaskChange s e (s.setPhase i t' ph') := by
  have hids := RelayTasks.idOf_setPhase_same t' ph' ((idOf_of_task h).trans hid)
  have hcopies := RelayTasks.copyOf_setPhase_same t' ph' ((copyOf_of_task h).trans hcopy)
  exact .quiet event hids hcopies rfl rfl rfl

theorem task_change (h : TaskSteps s e s') : TaskChange s e s' := by
  unfold TaskSteps stepOf RelayTasks.next at h
  cases e with
  | spawn i t =>
    dsimp only at h
    split at h
    · rename_i htask
      obtain rfl := Option.some.inj h
      have hid : s.idOf i = none := by rw [RelayTasks.idOf, htask, Option.bind_none]
      have hcopy : s.copyOf i = none := by rw [RelayTasks.copyOf, htask, Option.bind_none]
      have hids := RelayTasks.idOf_setPhase_same t .dialing hid
      have hcopies := RelayTasks.copyOf_setPhase_same t .dialing hcopy
      exact .quiet rfl hids hcopies rfl rfl rfl
    · cases h
  | reach i ok =>
    dsimp only at h
    split at h
    · rename_i htask
      split at h
      · obtain rfl := Option.some.inj h
        exact .of_same rfl htask rfl rfl
      · obtain rfl := Option.some.inj h
        exact .of_same rfl htask rfl rfl
    · cases h
  | alloc i =>
    dsimp only at h
    split at h
    · rename_i htask
      obtain rfl := Option.some.inj h
      refine .alloc (idOf_of_task htask) (RelayTasks.idOf_setPhase _ _ _ _)
        (RelayTasks.copyOf_setPhase_same _ _ ?_) rfl rfl rfl
      exact (copyOf_of_task htask).trans rfl
    · cases h
  | register i =>
    dsimp only at h
    split at h
    · rename_i htask
      split at h
      · obtain rfl := Option.some.inj h
        refine .register (idOf_of_task htask) (copyOf_of_task htask)
          (RelayTasks.idOf_setPhase_same _ _ ?_) (RelayTasks.copyOf_setPhase _ _ _ _) rfl rfl rfl
        exact (idOf_of_task htask).trans rfl
      · obtain rfl := Option.some.inj h
        exact .of_same rfl htask rfl rfl
    · cases h
  | finish i ok =>
    dsimp only at h
    split at h
    · rename_i htask
      obtain rfl := Option.some.inj h
      refine .finish (idOf_of_task htask) (RelayTasks.idOf_setPhase_same _ _ ?_)
        (RelayTasks.copyOf_setPhase _ _ _ _) rfl rfl rfl
      exact (idOf_of_task htask).trans rfl
    · cases h
  | update id bps =>
    obtain rfl := Option.some.inj h
    unfold RelayTasks.updateRelayRate
    split
    · exact .quiet rfl rfl rfl rfl rfl rfl
    · exact .quiet rfl rfl rfl rfl rfl rfl

/-! ## The invariant -/

/-- After `n` allocations: the ids given out are the first `n`, each to one task; the map holds the
throttled tasks that are copying; and no two of them have the same handle. -/
structure TasksInv (n : ℕ) (s : RelayTasks) : Prop where
  next : s.nextStreamId = .ofNat (n + 1)
  ids : ∀ i id, s.idOf i = some id → ∃ k < n, id = .ofNat (k + 1)
  own : ∀ i j id, s.idOf i = some id → s.idOf j = some id → i = j
  map : ∀ id h, s.relayRates.lookup id = some h ↔ ∃ i, s.copyOf i = some (id, h)
  handles : ∀ i id h, s.copyOf i = some (id, h) → h < s.handles
  apart : ∀ i j id id' h, s.copyOf i = some (id, h) → s.copyOf j = some (id', h) → i = j

theorem tasksInv_init : TasksInv 0 .init :=
  ⟨rfl, (fun _ _ h => by cases h), (fun _ _ _ h => by cases h),
    fun _ _ => ⟨(fun h => by cases h), fun ⟨_, h⟩ => by cases h⟩, (fun _ _ _ h => by cases h),
    fun _ _ _ _ _ h => by cases h⟩

/-- The counter does not come around within `2 ^ 64` allocations. -/
theorem ofNat_succ_inj {n k : ℕ} (hk : k < n) (hn : n < 2 ^ 64) :
    UInt64.ofNat (n + 1) ≠ .ofNat (k + 1) := by
  intro h
  have hnat := congrArg UInt64.toNat h
  rw [UInt64.toNat_ofNat', UInt64.toNat_ofNat'] at hnat
  omega

theorem tasksInv_alloc {n i : ℕ} (hn : n < 2 ^ 64) (hi : TasksInv n s)
    (ids : s'.idOf = Function.update s.idOf i (some s.nextStreamId))
    (copies : s'.copyOf = s.copyOf) (map : s'.relayRates = s.relayRates)
    (next : s'.nextStreamId = s.nextStreamId + 1) (handles : s'.handles = s.handles) :
    TasksInv (n + 1) s' := by
  have hnew : ∀ j, s.idOf j ≠ some s.nextStreamId := by
    intro j hj
    obtain ⟨k, hk, hid⟩ := hi.ids j _ hj
    exact ofNat_succ_inj hk hn (hi.next.symm.trans hid)
  refine ⟨?_, ?_, ?_, ?_, ?_, ?_⟩
  · rw [next, hi.next, ← UInt64.ofNat_one, ← UInt64.ofNat_add]
  · intro j id hj
    rw [ids, update_eq_some] at hj
    rcases hj with ⟨-, hid⟩ | ⟨-, hj⟩
    · exact ⟨n, Nat.lt_succ_self n, (Option.some.inj hid).symm.trans hi.next⟩
    · obtain ⟨k, hk, hid⟩ := hi.ids j id hj
      exact ⟨k, Nat.lt_succ_of_lt hk, hid⟩
  · intro j k id hj hk
    rw [ids] at hj hk
    refine update_apart (· = ·) (fun _ _ => Eq.symm) ?_ ?_ hj hk rfl
    · intro k id hk heq
      exact absurd (heq ▸ hk) (hnew k)
    · intro j k id id' hj hk heq
      exact hi.own j k id hj (heq ▸ hk)
  · rw [map, copies]
    exact hi.map
  · rw [handles, copies]
    exact hi.handles
  · rw [copies]
    exact hi.apart

theorem tasksInv_register {n i : ℕ} {id : UInt64} (hi : TasksInv n s) (own : s.idOf i = some id)
    (idle : s.copyOf i = none) (ids : s'.idOf = s.idOf)
    (copies : s'.copyOf = Function.update s.copyOf i (some (id, s.handles)))
    (map : s'.relayRates = s.relayRates.insert id s.handles)
    (next : s'.nextStreamId = s.nextStreamId) (handles : s'.handles = s.handles + 1) :
    TasksInv n s' := by
  -- Nobody else has the id, and nobody has the handle.
  have hid : ∀ j h, s.copyOf j ≠ some (id, h) := by
    intro j h hj
    obtain rfl := hi.own j i id (RelayTasks.idOf_of_copyOf hj) own
    rw [idle] at hj
    cases hj
  have hhandle : ∀ j id', s.copyOf j ≠ some (id', s.handles) := fun j id' hj =>
    absurd (hi.handles j id' _ hj) (Nat.lt_irrefl _)
  refine ⟨next.trans hi.next, by rw [ids]; exact hi.ids, by rw [ids]; exact hi.own, ?_, ?_, ?_⟩
  · intro id' h
    rw [map, copies]
    simp only [update_eq_some]
    by_cases heq : id' = id
    · subst heq
      rw [Finmap.lookup_insert]
      constructor
      · intro hh
        exact ⟨i, .inl ⟨rfl, by rw [Option.some.inj hh]⟩⟩
      · intro hright
        obtain ⟨j, ⟨-, hc⟩ | ⟨-, hc⟩⟩ := hright
        · rw [(Prod.mk.inj (Option.some.inj hc)).2]
        · exact absurd hc (hid j h)
    · rw [Finmap.lookup_insert_of_ne _ heq, hi.map]
      constructor
      · intro hleft
        obtain ⟨j, hj⟩ := hleft
        refine ⟨j, .inr ⟨?_, hj⟩⟩
        rintro rfl
        rw [idle] at hj
        cases hj
      · intro hright
        obtain ⟨j, ⟨-, hc⟩ | ⟨-, hc⟩⟩ := hright
        · exact absurd (Prod.mk.inj (Option.some.inj hc)).1.symm heq
        · exact ⟨j, hc⟩
  · intro j id' h hj
    rw [copies, update_eq_some] at hj
    rw [handles]
    rcases hj with ⟨-, hc⟩ | ⟨-, hc⟩
    · rw [← (Prod.mk.inj (Option.some.inj hc)).2]
      exact Nat.lt_succ_self _
    · exact Nat.lt_succ_of_lt (hi.handles j id' h hc)
  · intro j k id₁ id₂ h hj hk
    rw [copies] at hj hk
    refine update_apart (fun c c' => c.2 = c'.2) (fun _ _ => Eq.symm) ?_ ?_ hj hk rfl
    · intro k c hk heq
      dsimp only at heq
      exact absurd (heq ▸ hk) (hhandle k c.1)
    · intro j k c c' hj hk heq
      exact hi.apart j k c.1 c'.1 c.2 hj (heq ▸ hk)

theorem tasksInv_finish {n i : ℕ} {id : UInt64} (hi : TasksInv n s) (own : s.idOf i = some id)
    (ids : s'.idOf = s.idOf) (copies : s'.copyOf = Function.update s.copyOf i none)
    (map : s'.relayRates = s.relayRates.erase id) (next : s'.nextStreamId = s.nextStreamId)
    (handles : s'.handles = s.handles) : TasksInv n s' := by
  have hless : ∀ j c, s'.copyOf j = some c ↔ j ≠ i ∧ s.copyOf j = some c := by
    intro j c
    rw [copies, update_eq_some]
    simp
  refine ⟨next.trans hi.next, by rw [ids]; exact hi.ids, by rw [ids]; exact hi.own, ?_, ?_, ?_⟩
  · intro id' h
    rw [map]
    simp only [hless]
    by_cases heq : id' = id
    · -- The entry is gone, and the only task with the id is the one that has ended.
      subst heq
      rw [Finmap.lookup_erase]
      refine ⟨(fun hh => by cases hh), ?_⟩
      rintro ⟨j, hj, hc⟩
      exact absurd (hi.own j i id' (RelayTasks.idOf_of_copyOf hc) own) hj
    · rw [Finmap.lookup_erase_ne heq, hi.map]
      constructor
      · intro hleft
        obtain ⟨j, hj⟩ := hleft
        refine ⟨j, ?_, hj⟩
        rintro rfl
        exact heq (Option.some.inj ((RelayTasks.idOf_of_copyOf hj).symm.trans own))
      · intro hright
        obtain ⟨j, -, hj⟩ := hright
        exact ⟨j, hj⟩
  · intro j id' h hj
    rw [handles]
    exact hi.handles j id' h ((hless j _).1 hj).2
  · intro j k id₁ id₂ h hj hk
    exact hi.apart j k id₁ id₂ h ((hless j _).1 hj).2 ((hless k _).1 hk).2

end Steps

/-- The invariant over a run, by the allocations in it. -/
theorem tasksInv_run {es : List TaskEvent} {s : RelayTasks} (hrun : Run TaskSteps .init es s) :
    es.countP TaskEvent.isAlloc < 2 ^ 64 → TasksInv (es.countP TaskEvent.isAlloc) s := by
  refine Run.snoc_induction ?_ ?_ hrun
  · exact fun _ => tasksInv_init
  · intro es s e s' _ ih hs hfew
    rw [List.countP_append, List.countP_singleton] at hfew ⊢
    have hi := ih (by omega)
    cases task_change hs with
    | quiet event ids copies map next handles =>
      rw [event, if_neg Bool.false_ne_true, Nat.add_zero]
      exact ⟨next.trans hi.next, by rw [ids]; exact hi.ids, by rw [ids]; exact hi.own,
        by rw [map, copies]; exact hi.map, by rw [handles, copies]; exact hi.handles,
        by rw [copies]; exact hi.apart⟩
    | alloc _ ids copies map next handles =>
      exact tasksInv_alloc (by omega) hi ids copies map next handles
    | register own idle ids copies map next handles =>
      exact tasksInv_register hi own idle ids copies map next handles
    | finish own ids copies map next handles =>
      exact tasksInv_finish hi own ids copies map next handles

/-! ## What the map is good for -/

/-- The map holds the throttled tasks that are copying, and an update reaches the one it names. -/
structure RatesConsistent (s : RelayTasks) : Prop where
  keys : ∀ id, id ∈ s.relayRates ↔ ∃ i h, s.copyOf i = some (id, h)
  /-- No two tasks have the same id, and none has that of a task that has ended. -/
  own : ∀ i j id, s.idOf i = some id → s.idOf j = some id → i = j
  handle : ∀ i id h, s.copyOf i = some (id, h) → s.relayRates.lookup id = some h
  found : ∀ id bps, (s.updateRelayRate id bps).1 = true ↔ id ∈ s.relayRates
  only : ∀ id bps i, (s.updateRelayRate id bps).2.rateOf i =
    if (s.copyOf i).map Prod.fst = some id then some bps else s.rateOf i

/-- An update writes to the handle of one task. -/
theorem rateOf_update {n : ℕ} {s : RelayTasks} (hi : TasksInv n s) (id bps : UInt64) (i : ℕ) :
    (s.updateRelayRate id bps).2.rateOf i =
      if (s.copyOf i).map Prod.fst = some id then some bps else s.rateOf i := by
  unfold RelayTasks.updateRelayRate
  cases hlook : s.relayRates.lookup id with
  | none =>
    rw [if_neg]
    intro hcopy
    obtain ⟨⟨id', h⟩, hc, rfl⟩ := Option.map_eq_some_iff.1 hcopy
    rw [(hi.map id' h).2 ⟨i, hc⟩] at hlook
    cases hlook
  | some h =>
    obtain ⟨j, hj⟩ := (hi.map id h).1 hlook
    have hsame : ∀ rates, RelayTasks.copyOf { s with rates := rates } = s.copyOf := fun _ => rfl
    simp only [RelayTasks.rateOf, hsame]
    cases hc : s.copyOf i with
    | none => rfl
    | some c =>
      obtain ⟨id', h'⟩ := c
      simp only [Option.map_some, Option.some.injEq]
      by_cases heq : id' = id
      · subst heq
        obtain rfl := Option.some.inj (hlook.symm.trans ((hi.map id' h').2 ⟨i, hc⟩))
        rw [if_pos rfl, Function.update_self]
      · -- Another task has another handle.
        have hne : h' ≠ h := by
          rintro rfl
          obtain rfl := hi.apart i j id' id h' hc hj
          rw [hc] at hj
          exact heq (Prod.mk.inj (Option.some.inj hj)).1
        rw [if_neg heq, Function.update_of_ne hne]

/-- **The rates of the relay tasks.** In every run with fewer than `2 ^ 64` allocations. -/
theorem rates_consistent {es : List TaskEvent} {s : RelayTasks}
    (hrun : Run TaskSteps .init es s) (hfew : es.countP TaskEvent.isAlloc < 2 ^ 64) :
    RatesConsistent s := by
  have hi := tasksInv_run hrun hfew
  refine ⟨fun id => ?_, hi.own, fun i id h hc => (hi.map id h).2 ⟨i, hc⟩, fun id bps => ?_,
    rateOf_update hi⟩
  · rw [← Finmap.lookup_isSome, Option.isSome_iff_exists]
    constructor
    · intro hleft
      obtain ⟨h, hlook⟩ := hleft
      obtain ⟨i, hc⟩ := (hi.map id h).1 hlook
      exact ⟨i, h, hc⟩
    · intro hright
      obtain ⟨i, h, hc⟩ := hright
      exact ⟨h, (hi.map id h).2 ⟨i, hc⟩⟩
  · rw [← Finmap.lookup_isSome]
    unfold RelayTasks.updateRelayRate
    cases s.relayRates.lookup id with
    | none => simp
    | some h => simp

/-- Two throttled tunnels and one without a rate; the first has ended and the others copy. -/
def threeTasks : List TaskEvent :=
  [.spawn 0 ⟨carol, "web", some 100⟩, .spawn 1 ⟨carol, "web", none⟩,
    .spawn 2 ⟨carol, "web", some 100⟩, .reach 0 true, .reach 1 true, .reach 2 true, .alloc 1,
    .alloc 0, .alloc 2, .register 2, .register 0, .register 1, .finish 0 false]

theorem exec_threeTasks : (exec RelayTasks.next .init threeTasks).isSome := by decide

theorem rates_consistent_threeTasks :
    ∃ s, Run TaskSteps .init threeTasks s ∧ s.copyOf 2 = some (3, 0) ∧ RatesConsistent s ∧
      (s.updateRelayRate 3 7).2.rateOf 2 = some 7 ∧ ¬(s.updateRelayRate 2 7).1 := by
  have hrun := run_of_exec (Option.some_get exec_threeTasks).symm
  have hconsistent := rates_consistent hrun (by decide)
  exact ⟨_, hrun, rfl, hconsistent, hconsistent.only 3 7 2, by decide⟩

end MeshlyCore.Relay
