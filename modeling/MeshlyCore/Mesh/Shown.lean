import MeshlyCore.Mesh.Registered
import MeshlyCore.Mesh.Task

/-!
# What `--status` says is true

The status lags behind the task by a step, and the task behind the network by a heartbeat; so each
state that is shown is a statement on what the task has seen of the server.

**Theorem (`control_status`).** A client that is shown as registered has had every service confirmed
by the server. An error is shown exactly while the client is shown as reconnecting, and it is the
one of an attempt that failed, for a cause that the server knows of.

**Theorem (`status_query_true`).** The same of what `--status` prints and of what it returns, which
are two looks and need not agree.

**Theorem (`shown_is_found`).** While no harm is done to its connection, and the connection is
served, whoever is shown as registered is found under the name of every service.
-/

namespace MeshlyCore.Mesh

open Protocol Registry Machine Client Control

section Steps

variable {iroh : Iroh} {texts : Texts} {cfg : TaskConfig} {timeoutSecs : UInt64} {st : ServerState}
  {d d' : Daemon} {e : DaemonEvent} {w w' : World} {i : ℕ}

/-! ## What is shown -/

/-- The call on connection `i` is one of the task's. -/
def Attempt (iroh : Iroh) (cfg : TaskConfig) (st : ServerState) (i : ℕ) (w : World) : Prop :=
  ∃ l, Calls (openFacts iroh st) cfg.script cfg.self i w l

/-- It has returned `res`. -/
def Returned (iroh : Iroh) (cfg : TaskConfig) (st : ServerState) (i : ℕ)
    (res : Except CallError (Option EndpointId)) (w : World) : Prop :=
  ∃ l, Calls (openFacts iroh st) cfg.script cfg.self i w l ∧ l.call.result = some res

/-- An attempt of the task's has failed for this reason. -/
def Failed (iroh : Iroh) (texts : Texts) (cfg : TaskConfig) (st : ServerState) (msg : String)
    (w : World) : Prop :=
  (∃ text, msg = "connect to server control plane: " ++ text) ∨
    ∃ i err, Returned iroh cfg st i (.error err) w ∧
      msg = err.message texts.debug texts.parseError

/-- What the status can show of the task, as its state and its error. -/
inductive Shown (iroh : Iroh) (texts : Texts) (cfg : TaskConfig) (st : ServerState) (w : World) :
    TaskPhase → ControlState → Option String → Prop
  | unregistered : Shown iroh texts cfg st w .starting .unregistered none
  | connecting : Shown iroh texts cfg st w .connecting .registering none
  | calling {i : ℕ} (call : Attempt iroh cfg st i w) :
      Shown iroh texts cfg st w (.calling i) .registering none
  | called {i : ℕ} {p : Option EndpointId} (call : Returned iroh cfg st i (.ok p) w) :
      Shown iroh texts cfg st w (.returned (.ok i)) .registering none
  | failed {msg : String} (failed : Failed iroh texts cfg st msg w) :
      Shown iroh texts cfg st w (.returned (.error msg)) .registering none
  | serving {i : ℕ} {p : Option EndpointId} (call : Returned iroh cfg st i (.ok p) w) :
      Shown iroh texts cfg st w (.serving i) .registered none
  | beaten {i : ℕ} {p : Option EndpointId} (call : Returned iroh cfg st i (.ok p) w) :
      Shown iroh texts cfg st w (.beaten i) .registered none
  | broken {i : ℕ} {p : Option EndpointId} (call : Returned iroh cfg st i (.ok p) w) :
      Shown iroh texts cfg st w .starting .registered none
  | sleeping {msg : String} (failed : Failed iroh texts cfg st msg w) :
      Shown iroh texts cfg st w .sleeping .reconnecting (some msg)
  | woken {msg : String} (failed : Failed iroh texts cfg st msg w) :
      Shown iroh texts cfg st w .starting .reconnecting (some msg)

/-- What `status_query` has seen was shown. -/
inductive QuerySaw (timeoutSecs : UInt64) (seen : ControlState → Option String → Prop) :
    Query → Prop
  | polling : QuerySaw timeoutSecs seen .polling
  | printing : QuerySaw timeoutSecs seen .printing
  | checking {shown : ControlStatus} (printed : seen shown.state shown.lastError) :
      QuerySaw timeoutSecs seen (.checking shown)
  | returned {shown : ControlStatus} {state : ControlState} {err : Option String}
      (printed : seen shown.state shown.lastError) (checked : seen state err) :
      QuerySaw timeoutSecs seen (.returned shown (queryResult timeoutSecs state))

/-- The status shows what the task does, and the query has seen such a status. -/
structure Reports (iroh : Iroh) (texts : Texts) (cfg : TaskConfig) (timeoutSecs : UInt64)
    (st : ServerState) (d : Daemon) : Prop where
  auth : d.world.server.state.authenticate = st.authenticate
  shown : Shown iroh texts cfg st d.world d.task d.status.control.state d.status.control.lastError
  query : QuerySaw timeoutSecs
    (fun state err => ∃ task, Shown iroh texts cfg st d.world task state err) d.query

/-- What has returned has returned for good. -/
structure Keeps (iroh : Iroh) (cfg : TaskConfig) (st : ServerState) (w w' : World) : Prop where
  attempt : ∀ i, Attempt iroh cfg st i w → Attempt iroh cfg st i w'
  returned : ∀ i res, Returned iroh cfg st i res w → Returned iroh cfg st i res w'

theorem keeps_step {e : Event} (h : WorldSteps iroh w e w')
    (hauth : w.server.state.authenticate = st.authenticate) : Keeps iroh cfg st w w' := by
  have hk : (openFacts iroh st).Hold w.server.state cfg.script :=
    ⟨congrFun hauth _, fun _ _ _ _ => trivial⟩
  constructor
  · intro i hcall
    obtain ⟨l, hcalls⟩ := hcall
    obtain ⟨l', hcalls', -⟩ := calls_step (k := openFacts iroh st) h hk hcalls
    exact ⟨l', hcalls'⟩
  · intro i res hret
    obtain ⟨l, hcalls, hres⟩ := hret
    obtain ⟨l', hcalls', hkeep⟩ := calls_step (k := openFacts iroh st) h hk hcalls
    exact ⟨l', hcalls', hkeep res hres⟩

theorem Keeps.failed (hk : Keeps iroh cfg st w w') {msg : String}
    (h : Failed iroh texts cfg st msg w) : Failed iroh texts cfg st msg w' := by
  rcases h with htext | ⟨i, err, hret, hmsg⟩
  · exact .inl htext
  · exact .inr ⟨i, err, hk.returned i _ hret, hmsg⟩

theorem Keeps.shown (hk : Keeps iroh cfg st w w') {task : TaskPhase} {state : ControlState}
    {err : Option String} (h : Shown iroh texts cfg st w task state err) :
    Shown iroh texts cfg st w' task state err := by
  cases h with
  | unregistered => exact .unregistered
  | connecting => exact .connecting
  | calling call => exact .calling (hk.attempt _ call)
  | called call => exact .called (hk.returned _ _ call)
  | failed failed => exact .failed (hk.failed failed)
  | serving call => exact .serving (hk.returned _ _ call)
  | beaten call => exact .beaten (hk.returned _ _ call)
  | broken call => exact .broken (hk.returned _ _ call)
  | sleeping failed => exact .sleeping (hk.failed failed)
  | woken failed => exact .woken (hk.failed failed)

theorem QuerySaw.mono {seen seen' : ControlState → Option String → Prop} {q : Query}
    (hle : ∀ state err, seen state err → seen' state err) (h : QuerySaw timeoutSecs seen q) :
    QuerySaw timeoutSecs seen' q := by
  cases h with
  | polling => exact .polling
  | printing => exact .printing
  | checking printed => exact .checking (hle _ _ printed)
  | returned printed checked => exact .returned (hle _ _ printed) (hle _ _ checked)

/-- A phase that is shown as the one before it. -/
inductive TaskPhase.Quiet : TaskPhase → TaskPhase → Prop
  | beat {i : ℕ} : Quiet (.serving i) (.beaten i)
  | recorded {i : ℕ} : Quiet (.beaten i) (.serving i)
  | broken {i : ℕ} : Quiet (.serving i) .starting
  | woken : Quiet .sleeping .starting

section Shown

variable {state : ControlState} {err : Option String} {task : TaskPhase} {msg : String}

theorem Shown.quiet (h : Shown iroh texts cfg st w task state err) {task' : TaskPhase}
    (hq : task.Quiet task') : Shown iroh texts cfg st w task' state err := by
  cases hq with
  | beat =>
    cases h with
    | serving call => exact .beaten call
  | recorded =>
    cases h with
    | beaten call => exact .serving call
  | broken =>
    cases h with
    | serving call => exact .broken call
  | woken =>
    cases h with
    | sleeping failed => exact .woken failed

theorem Shown.attempt (h : Shown iroh texts cfg st w (.calling i) state err) :
    Attempt iroh cfg st i w := by
  cases h with
  | calling call => exact call

/-- An attempt is under way, and is shown so. -/
theorem Shown.registering (h : Shown iroh texts cfg st w task state err)
    (htask : task = .connecting ∨ ∃ i, task = .calling i) : state = .registering ∧ err = none := by
  rcases htask with rfl | ⟨i, rfl⟩ <;> cases h <;> exact ⟨rfl, rfl⟩

theorem Shown.of_ok (h : Shown iroh texts cfg st w (.returned (.ok i)) state err) :
    ∃ p, Returned iroh cfg st i (.ok p) w := by
  cases h with
  | called call => exact ⟨_, call⟩

theorem Shown.of_error (h : Shown iroh texts cfg st w (.returned (.error msg)) state err) :
    Failed iroh texts cfg st msg w := by
  cases h with
  | failed failed => exact failed

end Shown

/-- A call of the task's, and what it has returned. -/
theorem Attempt.returned {l : Link} {res : Except CallError (Option EndpointId)}
    (h : Attempt iroh cfg st i w) (hl : w.links i = some l) (hres : l.call.result = some res) :
    Returned iroh cfg st i res w := by
  obtain ⟨l', hcalls⟩ := h
  cases hl.symm.trans hcalls.1
  exact ⟨l, hcalls, hres⟩

theorem attempt_of_dial (h : WorldSteps iroh w (.dial i cfg.self cfg.script) w') :
    Attempt iroh cfg st i w' := by
  rcases world_cases h with ⟨_, _, _, he, -, hserver, hlinks⟩ | ⟨_, _, _, -, -, -, he, -⟩ |
      ⟨_, he, -⟩
  · cases he
    refine ⟨⟨.start cfg.script, [], false⟩, ?_, rfl, _, ?_, rfl, lockstep_start _ _ _⟩
    · rw [hlinks, Function.update_self]
    · rw [hserver, conns_setConn_self]
  · cases he
  · cases he

/-- The network moves, and the task does not. -/
theorem Reports.world (hr : Reports iroh texts cfg timeoutSecs st d) {e : Event}
    (h : WorldSteps iroh d.world e w') :
    Reports iroh texts cfg timeoutSecs st { d with world := w' } := by
  have hk : Keeps iroh cfg st d.world w' := keeps_step h hr.auth
  refine ⟨(authenticate_step h).trans hr.auth, hk.shown hr.shown, hr.query.mono ?_⟩
  intro state err hseen
  exact hseen.imp fun task => hk.shown

/-- The task goes on to another phase, and shows it. -/
theorem Reports.move (hr : Reports iroh texts cfg timeoutSecs st d) {task : TaskPhase}
    {status : RuntimeStatus}
    (hshown : Shown iroh texts cfg st d.world task status.control.state status.control.lastError) :
    Reports iroh texts cfg timeoutSecs st { d with status, task } :=
  ⟨hr.auth, hshown, hr.query⟩

/-- It goes on to a phase of an attempt. -/
theorem Reports.attempt (hr : Reports iroh texts cfg timeoutSecs st d) {task : TaskPhase}
    (htask : d.task = .connecting ∨ ∃ i, d.task = .calling i)
    (hshown : Shown iroh texts cfg st d.world task .registering none) :
    Reports iroh texts cfg timeoutSecs st { d with task } := by
  obtain ⟨hstate, herr⟩ := hr.shown.registering htask
  refine hr.move ?_
  rw [hstate, herr]
  exact hshown

theorem Reports.quiet (hr : Reports iroh texts cfg timeoutSecs st d) {task task' : TaskPhase}
    (htask : d.task = task) (hq : task.Quiet task') :
    Reports iroh texts cfg timeoutSecs st { d with task := task' } :=
  hr.move (hr.shown.quiet (htask ▸ hq))

theorem Reports.query_to (hr : Reports iroh texts cfg timeoutSecs st d) {query : Query}
    (hq : QuerySaw timeoutSecs
      (fun state err => ∃ task, Shown iroh texts cfg st d.world task state err) query) :
    Reports iroh texts cfg timeoutSecs st { d with query } :=
  ⟨hr.auth, hr.shown, hq⟩

theorem reports_step (h : DaemonSteps iroh texts cfg timeoutSecs d e d')
    (hr : Reports iroh texts cfg timeoutSecs st d) : Reports iroh texts cfg timeoutSecs st d' := by
  have hshown := hr.shown
  cases daemon_move h with
  | registering task => exact hr.move .connecting
  | connected task step =>
    exact (hr.world step).attempt (.inl task) (.calling (attempt_of_dial step))
  | unconnected task => exact hr.attempt (.inl task) (.failed (.inl ⟨_, rfl⟩))
  | called task link result =>
    rw [task] at hshown
    exact hr.attempt (.inr ⟨_, task⟩) (.called (hshown.attempt.returned link result))
  | @uncalled i l err w' task link result step =>
    rw [task] at hshown
    have hret := hshown.attempt.returned link result
    exact (hr.world step).attempt (.inr ⟨i, task⟩)
      (.failed (.inr ⟨i, err, (keeps_step step hr.auth).returned i _ hret, rfl⟩))
  | registered task =>
    rw [task] at hshown
    exact hr.move (.serving hshown.of_ok.choose_spec)
  | failed task =>
    rw [task] at hshown
    exact hr.move (.sleeping hshown.of_error)
  | beat task step => exact (hr.world step).quiet task .beat
  | recorded task => exact hr.move (hshown.quiet (task ▸ .recorded))
  | broken task step => exact (hr.world step).quiet task .broken
  | woken task => exact hr.quiet task .woken
  | poll _ goes =>
    rcases goes with rfl | rfl
    · exact hr.query_to .polling
    · exact hr.query_to .printing
  | print => exact hr.query_to (.checking ⟨_, hshown⟩)
  | check checking =>
    have hquery := hr.query
    rw [checking] at hquery
    cases hquery with
    | checking printed => exact hr.query_to (.returned printed ⟨_, hshown⟩)
  | consumer => exact ⟨hr.auth, hshown, hr.query⟩
  | world step => exact hr.world step

theorem reports_start (names : List String) :
    Reports iroh texts cfg timeoutSecs st (.start st names) :=
  ⟨rfl, .unregistered, .polling⟩

theorem reports_run {names : List String} {es : List DaemonEvent}
    (hrun : Run (DaemonSteps iroh texts cfg timeoutSecs) (.start st names) es d) :
    Reports iroh texts cfg timeoutSecs st d :=
  hrun.invariant (P := Reports iroh texts cfg timeoutSecs st) (fun _ _ _ => reports_step)
    (reports_start names)

/-! ## What it means -/

/-- The server has confirmed every service of the client on connection `i`. -/
structure RegisteredOn (cfg : TaskConfig) (st : ServerState) (i : ℕ) (w : World) : Prop where
  call : ∃ l, w.links i = some l ∧ l.call.script = cfg.script ∧ l.call.result = some (.ok none)
  group : ∃ g, st.authenticate cfg.groupToken = some g
  confirmed : ∃ c, w.server.conns i = some c ∧ c.remote = cfg.self ∧
    ∀ svc ∈ cfg.exposed ++ cfg.statics, Confirms svc c

/-- Why an attempt has failed: it got no connection, or its call has returned an error, with a
cause. -/
def FailedBecause (iroh : Iroh) (texts : Texts) (cfg : TaskConfig) (st : ServerState)
    (msg : String) (w : World) : Prop :=
  (∃ text, msg = "connect to server control plane: " ++ text) ∨
    ∃ i l err, w.links i = some l ∧ l.call.script = cfg.script ∧
      l.call.result = some (.error err) ∧ msg = err.message texts.debug texts.parseError ∧
      Cause (openFacts iroh st) cfg.script err

theorem mem_script {svc : String} (h : svc ∈ cfg.exposed ++ cfg.statics) :
    ∃ isStatic, .register svc isStatic ∈ cfg.script.body := by
  rcases List.mem_append.1 h with hin | hin
  · exact ⟨false, List.mem_append_left _ (List.mem_map_of_mem hin)⟩
  · exact ⟨true, List.mem_append_right _ (List.mem_map_of_mem hin)⟩

theorem Returned.registeredOn {p : Option EndpointId}
    (h : Returned iroh cfg st i (.ok p) w) : RegisteredOn cfg st i w := by
  obtain ⟨l, ⟨hl, hscript, c, hc, hremote, hlock⟩, hres⟩ := h
  obtain ⟨taken, ha, -⟩ := id hlock
  have houtcome := ha.outcome _ hres
  rw [hscript] at houtcome
  cases p with
  | none =>
    obtain ⟨hgroup, -⟩ := houtcome
    refine ⟨⟨l, hl, hscript, hres⟩, hgroup, c, hc, hremote, fun svc hsvc => ?_⟩
    obtain ⟨isStatic, hmem⟩ := mem_script hsvc
    exact hlock.confirms hres (hscript ▸ hmem)
  | some p =>
    obtain ⟨-, svc, q, hmem, -⟩ := houtcome
    simp [TaskConfig.script, Script.body] at hmem

theorem Failed.because {msg : String} (h : Failed iroh texts cfg st msg w) :
    FailedBecause iroh texts cfg st msg w := by
  rcases h with htext | ⟨i, err, ⟨l, ⟨hl, hscript, c, -, -, taken, ha, -⟩, hres⟩, hmsg⟩
  · exact .inl htext
  · have houtcome := ha.outcome _ hres
    rw [hscript] at houtcome
    exact .inr ⟨i, l, err, hl, hscript, hres, hmsg, houtcome⟩

/-- What is shown, in terms of the server. -/
structure Meaning (iroh : Iroh) (texts : Texts) (cfg : TaskConfig) (st : ServerState) (w : World)
    (state : ControlState) (err : Option String) : Prop where
  registered : state = .registered → ∃ i, RegisteredOn cfg st i w
  error_iff : err.isSome ↔ state = .reconnecting
  failed : ∀ msg, err = some msg → FailedBecause iroh texts cfg st msg w

theorem Shown.meaning {task : TaskPhase} {state : ControlState} {err : Option String}
    (h : Shown iroh texts cfg st w task state err) : Meaning iroh texts cfg st w state err := by
  cases h with
  | serving call => exact ⟨fun _ => ⟨_, call.registeredOn⟩, by simp, by simp⟩
  | beaten call => exact ⟨fun _ => ⟨_, call.registeredOn⟩, by simp, by simp⟩
  | broken call => exact ⟨fun _ => ⟨_, call.registeredOn⟩, by simp, by simp⟩
  | sleeping failed => exact ⟨by simp, by simp, fun _ hmsg => Option.some.inj hmsg ▸ failed.because⟩
  | woken failed => exact ⟨by simp, by simp, fun _ hmsg => Option.some.inj hmsg ▸ failed.because⟩
  | _ => exact ⟨by simp, by simp, by simp⟩

/-- **What the status says is true**, however the task, the network and the server interleave. A
client that is shown as registered has had every service confirmed, on the connection that the task
holds, or has given up in this moment. An error is shown just while the client is shown as
reconnecting, and tells why an attempt has failed. -/
theorem control_status {names : List String} {es : List DaemonEvent}
    (hrun : Run (DaemonSteps iroh texts cfg timeoutSecs) (.start st names) es d) :
    Meaning iroh texts cfg st d.world d.status.control.state d.status.control.lastError ∧
      (d.status.control.state = .registered →
        d.task = .starting ∨ ∃ i, d.task.conn? = some i ∧ RegisteredOn cfg st i d.world) := by
  have hshown := (reports_run hrun).shown
  refine ⟨hshown.meaning, fun hstate => ?_⟩
  rw [hstate] at hshown
  generalize d.task = task at hshown
  generalize d.status.control.lastError = err at hshown
  cases hshown with
  | serving call => exact .inr ⟨_, rfl, call.registeredOn⟩
  | beaten call => exact .inr ⟨_, rfl, call.registeredOn⟩
  | broken call => exact .inl rfl

/-- **What `--status` prints and returns is true.** What it prints was shown, and it has returned
well only if then the client was shown as registered, and otherwise says what was shown instead. -/
theorem status_query_true {names : List String} {es : List DaemonEvent}
    (hrun : Run (DaemonSteps iroh texts cfg timeoutSecs) (.start st names) es d)
    {shown : ControlStatus} {res : Except String Unit} (hq : d.query = .returned shown res) :
    Meaning iroh texts cfg st d.world shown.state shown.lastError ∧
      (res = .ok () → ∃ i, RegisteredOn cfg st i d.world) ∧
      ∀ msg, res = .error msg → ∃ state err, state ≠ .registered ∧
        msg = unsettledMessage timeoutSecs state ∧
        Meaning iroh texts cfg st d.world state err := by
  have hquery := (reports_run hrun).query
  rw [hq] at hquery
  cases hquery with
  | @returned _ state err printed checked =>
    obtain ⟨_, hprinted⟩ := printed
    obtain ⟨_, hchecked⟩ := checked
    refine ⟨hprinted.meaning, fun hok => ?_, fun msg herr => ?_⟩
    · refine hchecked.meaning.registered ?_
      by_contra hne
      rw [queryResult, if_neg hne] at hok
      cases hok
    · refine ⟨state, err, fun heq => ?_, ?_, hchecked.meaning⟩
      · rw [queryResult, if_pos heq] at herr
        cases herr
      · unfold queryResult at herr
        split_ifs at herr
        exact (Except.error.inj herr).symm

/-! ## Who is shown is found -/

/-- No harm is done to the connection that the task holds. -/
def TaskUnharmed (cfg : TaskConfig) (d : Daemon) (e : DaemonEvent) : Prop :=
  ∀ e' i, e.world? cfg = some e' → d.task.conn? = some i → Unharmed i d.world e'

/-- What is confirmed on the task's connection is kept. -/
def TaskConfirmed (d : Daemon) : Prop :=
  GroupsKnown d.world.server ∧ ∀ i, d.task.conn? = some i → Confirmed i d.world

theorem unharmed_of_served {e' : Event} (h : e'.served = none) : Unharmed i w e' := by
  intro e'' he
  rw [h] at he
  cases he

theorem groupsKnown_world {e' : Event} (h : WorldSteps iroh w e' w')
    (hknown : GroupsKnown w.server) : GroupsKnown w'.server := by
  rcases server_step h with ⟨e'', -, hs⟩ | ⟨-, hsame⟩
  · exact groupsKnown_step hs hknown
  · rwa [hsame]

/-- A connection that is new has confirmed nothing. -/
theorem confirmed_of_dial {remote : EndpointId} {script : Script}
    (h : WorldSteps iroh w (.dial i remote script) w') (hknown : GroupsKnown w.server) :
    Confirmed i w' := by
  refine ⟨groupsKnown_world h hknown, fun c svc hc hconf => ?_⟩
  · rcases world_cases h with ⟨_, _, _, he, -, hserver, -⟩ | ⟨_, _, _, -, -, -, he, -⟩ | ⟨_, he, -⟩
    · cases he
      rw [hserver, conns_setConn_self] at hc
      obtain rfl := Option.some.inj hc
      rcases hconf with hsent | ⟨_, _, hphase⟩
      · cases hsent
      · cases hphase
    · cases he
    · cases he

/-- The connection that the task holds is new, or it has held it before. -/
theorem conn_of_step (h : DaemonSteps iroh texts cfg timeoutSecs d e d')
    (hi : d'.task.conn? = some i) : d.task.conn? = some i ∨ e = .connected i := by
  cases daemon_move h with
  | connected => exact .inr (by rw [Option.some.inj hi])
  | called task => exact .inl (by rw [task]; exact hi)
  | registered task => exact .inl (by rw [task]; exact hi)
  | beat task => exact .inl (by rw [task]; exact hi)
  | recorded task => exact .inl (by rw [task]; exact hi)
  | poll => exact .inl hi
  | print => exact .inl hi
  | check => exact .inl hi
  | consumer => exact .inl hi
  | world => exact .inl hi
  | _ => cases hi

theorem taskConfirmed_step
    (h : Guarded (TaskUnharmed cfg) (DaemonSteps iroh texts cfg timeoutSecs) d e d')
    (hc : TaskConfirmed d) : TaskConfirmed d' := by
  obtain ⟨hunharmed, hstep⟩ := h
  obtain ⟨hknown, hconf⟩ := hc
  constructor
  · rcases daemon_world hstep with hsame | ⟨e', hs, -⟩
    · rwa [hsame]
    · exact groupsKnown_world hs hknown
  · intro i hi
    rcases conn_of_step hstep hi with hold | rfl
    · rcases daemon_world hstep with hsame | ⟨e', hs, hseen⟩
      · rw [hsame]
        exact hconf i hold
      · refine confirmed_step ⟨?_, hs⟩ (hconf i hold)
        rcases hseen with he' | hunseen
        · exact hunharmed e' i he' hold
        · exact unharmed_of_served hunseen
    · cases daemon_move hstep with
      | connected _ step => exact confirmed_of_dial step hknown

/-- **Who is shown as registered is found.** While no harm is done to the connection that the task
holds, and the server serves it, the client is shown as registered only if it is found under the
name of each of its services, in the group of its token. -/
theorem shown_is_found {names : List String} {es : List DaemonEvent} {c : Conn} {g : String}
    (hrun : Run (Guarded (TaskUnharmed cfg) (DaemonSteps iroh texts cfg timeoutSecs))
      (.start st names) es d)
    (hstate : d.status.control.state = .registered) (hi : d.task.conn? = some i)
    (hc : d.world.server.conns i = some c) (hserving : c.phase.serving = some g) :
    c.remote = cfg.self ∧ st.authenticate cfg.groupToken = some g ∧
      ∀ svc ∈ cfg.exposed ++ cfg.statics,
        d.world.server.state.lookupService g svc = some cfg.self := by
  have hreports := reports_run (hrun.mono fun _ _ _ hs => hs.2)
  have hconf : TaskConfirmed d := by
    refine hrun.invariant (P := TaskConfirmed) (fun _ _ _ => taskConfirmed_step) ⟨?_, ?_⟩
    · intro j c g hc
      cases hc
    · intro j hj
      cases hj
  obtain ⟨p, hret⟩ : ∃ p, Returned iroh cfg st i (.ok p) d.world := by
    have hshown := hreports.shown
    rw [hstate] at hshown
    generalize d.task = task at hshown hi
    generalize d.status.control.lastError = err at hshown
    cases hshown with
    | serving call =>
      obtain rfl := Option.some.inj hi
      exact ⟨_, call⟩
    | beaten call =>
      obtain rfl := Option.some.inj hi
      exact ⟨_, call⟩
    | broken call => cases hi
  obtain ⟨c', hc', hremote, hconfirmed⟩ := hret.registeredOn.confirmed
  cases hc.symm.trans hc'
  obtain ⟨l, ⟨-, hscript, c₀, hc₀, -, taken, -, hs⟩, -⟩ := hret
  cases hc.symm.trans hc₀
  have hgroup := hs.group g (Phase.joined_of_serving hserving)
  rw [hscript] at hgroup
  refine ⟨hremote, hgroup, fun svc hsvc => ?_⟩
  rw [(hconf.2 i hi).found hc hserving (hconfirmed svc hsvc), hremote]

end Steps

/-! ## Alice's task -/

def aliceTask : TaskConfig := ⟨alice, "token", "sample", ["web"], ["docs"]⟩

def plainTexts : Texts := ⟨plain, id⟩

/-- The task registers at the first attempt, and `--status` looks. -/
def aliceTaskEvents : List DaemonEvent :=
  [.registering 0, .poll false, .connected 0] ++ aliceCalls.tail.map .world ++
    [.returned, .settled 5, .poll false, .print, .check]

def aliceShown : Daemon :=
  (exec (Daemon.next Iroh.hex plainTexts aliceTask 10) (.start sampleState []) aliceTaskEvents).get
    (by decide +kernel)

theorem run_aliceShown : Run (DaemonSteps Iroh.hex plainTexts aliceTask 10) (.start sampleState [])
    aliceTaskEvents aliceShown :=
  run_of_exec (Option.some_get _).symm

theorem aliceShown_returned :
    ∃ shown, aliceShown.query = .returned shown (.ok ()) ∧ shown.state = .registered :=
  ⟨_, rfl, rfl⟩

theorem control_status_alice :
    ∃ i, aliceShown.task.conn? = some i ∧
      RegisteredOn aliceTask sampleState i aliceShown.world := by
  rcases (control_status run_aliceShown).2 (by decide +kernel) with htask | h
  · cases htask
  · exact h

theorem status_query_true_alice : ∃ shown, aliceShown.query = .returned shown (.ok ()) ∧
    ∃ i, RegisteredOn aliceTask sampleState i aliceShown.world := by
  obtain ⟨shown, hq, -⟩ := aliceShown_returned
  exact ⟨shown, hq, (status_query_true run_aliceShown hq).2.1 rfl⟩

theorem run_aliceUnharmed :
    Run (Guarded (TaskUnharmed aliceTask) (DaemonSteps Iroh.hex plainTexts aliceTask 10))
      (.start sampleState []) aliceTaskEvents aliceShown := by
  refine run_aliceShown.guarded_of_invariant (P := fun d => ∀ i, d.task.conn? = some i → i = 0)
    (fun e he d d' hstep hp => ?_) (fun e he d hp e' i he' hi => ?_) (fun i hi => by cases hi)
  · intro i hi
    rcases conn_of_step hstep hi with hold | rfl
    · exact hp i hold
    · simpa [aliceTaskEvents, aliceCalls] using he
  · obtain rfl := hp i hi
    refine Event.Harmless.unharmed (harmless_aliceCalls e' ?_) _
    simp only [aliceTaskEvents, List.mem_append, List.mem_cons, List.not_mem_nil, or_false,
      List.mem_map] at he
    rcases he with ((rfl | rfl | rfl) | ⟨e'', he'', rfl⟩) | rfl | rfl | rfl | rfl | rfl
    · cases he'
    · cases he'
    · obtain rfl := Option.some.inj he'
      exact List.mem_cons_self
    · obtain rfl := Option.some.inj he'
      exact List.mem_of_mem_tail he''
    all_goals cases he'

theorem shown_is_found_alice :
    aliceShown.world.server.state.lookupService "home" "docs" = some alice :=
  (shown_is_found run_aliceUnharmed rfl rfl rfl rfl).2.2 "docs" (by decide)

end MeshlyCore.Mesh
