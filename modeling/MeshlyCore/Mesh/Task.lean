import MeshlyCore.Client.Status
import MeshlyCore.Mesh.World

/-!
# The registration task

`run_client`: a task registers the client's services, keeps the connection alive with heartbeats,
and starts again when a heartbeat cannot be written, or 5 seconds after an attempt that failed. It
reports to the status between its steps, and `--status` waits for a report and takes two looks: one
for what it prints, and one for what it returns.

The task's attempts are calls in a `World`, next to everybody else's. An attempt that gets no
connection is not one.
-/

namespace MeshlyCore.Mesh

open Protocol Registry Machine Client Control

/-- The client, and what the task calls `register_with_server` with. -/
structure TaskConfig where
  self : EndpointId
  groupToken : String
  clientInfo : String
  exposed : List String
  statics : List String

def TaskConfig.script (cfg : TaskConfig) : Script :=
  .registerWithServer cfg.groupToken cfg.clientInfo cfg.exposed cfg.statics

/-- How texts are rendered: frames and strings, and the errors of iroh's parser. -/
structure Texts where
  debug : Debug
  parseError : String → String

inductive TaskPhase where
  | starting
  | connecting
  | calling (i : ℕ)
  /-- `register_with_server` has returned its connection, or an error. -/
  | returned (res : Except String ℕ)
  | serving (i : ℕ)
  /-- A heartbeat is written. -/
  | beaten (i : ℕ)
  | sleeping

/-- The connection that the task holds. -/
def TaskPhase.conn? : TaskPhase → Option ℕ
  | .calling i => some i
  | .returned (.ok i) => some i
  | .serving i => some i
  | .beaten i => some i
  | _ => none

/-- The heartbeats on its connection are the task's own. -/
def TaskPhase.beats (task : TaskPhase) : Event → Bool
  | .beat i => task.conn? = some i
  | _ => false

/-- `status_query`: it polls, prints what it sees, and looks once more for what it returns. -/
inductive Query where
  | polling
  | printing
  | checking (shown : ControlStatus)
  | returned (shown : ControlStatus) (res : Except String Unit)

/-- A client with its status, and the network around it. -/
structure Daemon where
  world : World
  status : RuntimeStatus
  task : TaskPhase
  query : Query

inductive DaemonEvent where
  | registering (nowMs : Int64)
  | connected (i : ℕ)
  | unconnected (text : String)
  | returned
  | settled (nowMs : Int64)
  | beat
  | recorded (nowMs : Int64)
  /-- A heartbeat cannot be written. -/
  | broken
  | woken
  /-- `status_query` takes a snapshot, before or after its deadline. -/
  | poll (expired : Bool)
  | print
  | check
  /-- A consumed service reports its state. -/
  | consumer (name : String) (state : ConsumerState) (mode err : Option String) (nowMs : Int64)
  | world (e : Event)

namespace Daemon

variable (iroh : Iroh) (texts : Texts) (cfg : TaskConfig) (timeoutSecs : UInt64)

def start (st : ServerState) (consumerNames : List String) : Daemon :=
  ⟨.init st, .new consumerNames, .starting, .polling⟩

def setWorld (d : Daemon) (e : Event) (task : TaskPhase) : Option Daemon :=
  (d.world.next iroh e).map fun world => { d with world, task }

/-- What `register_with_server` on connection `i` returns. An error drops the connection. -/
def finishCall (d : Daemon) (i : ℕ) : Option Daemon :=
  (d.world.links i).bind fun l => l.call.result.bind fun res =>
    match res with
    | .ok _ => some { d with task := .returned (.ok i) }
    | .error e =>
        d.setWorld iroh (.lose i) (.returned (.error (e.message texts.debug texts.parseError)))

def next (d : Daemon) : DaemonEvent → Option Daemon
  | .registering nowMs =>
      match d.task with
      | .starting => some { d with
          status := d.status.setControlState .registering none nowMs
          task := .connecting }
      | _ => none
  | .connected i =>
      match d.task with
      | .connecting => d.setWorld iroh (.dial i cfg.self cfg.script) (.calling i)
      | _ => none
  | .unconnected text =>
      match d.task with
      | .connecting =>
          some { d with task := .returned (.error ("connect to server control plane: " ++ text)) }
      | _ => none
  | .returned =>
      match d.task with
      | .calling i => d.finishCall iroh texts i
      | _ => none
  | .settled nowMs =>
      match d.task with
      | .returned (.ok i) => some { d with
          status := d.status.setControlState .registered none nowMs
          task := .serving i }
      | .returned (.error msg) => some { d with
          status := d.status.setControlState .reconnecting (some msg) nowMs
          task := .sleeping }
      | _ => none
  | .beat =>
      match d.task with
      | .serving i => d.setWorld iroh (.beat i) (.beaten i)
      | _ => none
  | .recorded nowMs =>
      match d.task with
      | .beaten i => some { d with status := d.status.recordHeartbeat nowMs, task := .serving i }
      | _ => none
  | .broken =>
      match d.task with
      | .serving i =>
          if ((d.world.links i).any fun l => l.down) ∨ d.world.hasEnded i then
            d.setWorld iroh (.lose i) .starting
          else none
      | _ => none
  | .woken =>
      match d.task with
      | .sleeping => some { d with task := .starting }
      | _ => none
  | .poll expired =>
      match d.query with
      | .polling =>
          if d.status.control.state.isSettled ∨ expired then some { d with query := .printing }
          else some { d with query := .polling }
      | _ => none
  | .print =>
      match d.query with
      | .printing => some { d with query := .checking d.status.control }
      | _ => none
  | .check =>
      match d.query with
      | .checking shown =>
          let res := queryResult timeoutSecs d.status.control.state
          some { d with query := .returned shown res }
      | _ => none
  | .consumer name state mode err nowMs =>
      some { d with status := d.status.setConsumerState name state mode err nowMs }
  | .world e =>
      if d.task.beats e then none else d.setWorld iroh e d.task

end Daemon

abbrev DaemonSteps (iroh : Iroh) (texts : Texts) (cfg : TaskConfig) (timeoutSecs : UInt64) :
    Daemon → DaemonEvent → Daemon → Prop :=
  stepOf (Daemon.next iroh texts cfg timeoutSecs)

/-! ## What happens to the network -/

/-- What the server sees of an event, if it sees anything. -/
def DaemonEvent.world? (cfg : TaskConfig) : DaemonEvent → Option Event
  | .connected i => some (.dial i cfg.self cfg.script)
  | .world e => some e
  | _ => none

section Steps

variable {iroh : Iroh} {texts : Texts} {cfg : TaskConfig} {timeoutSecs : UInt64} {st : ServerState}
  {d d' : Daemon} {e : DaemonEvent} {w w' : World} {i : ℕ}

theorem setWorld_cases {e : Event} {task : TaskPhase} (h : d.setWorld iroh e task = some d') :
    ∃ w', WorldSteps iroh d.world e w' ∧ d' = { d with world := w', task } := by
  obtain ⟨w', hw', rfl⟩ := Option.map_eq_some_iff.1 h
  exact ⟨w', hw', rfl⟩

/-- The call has returned, and its connection is kept or dropped. -/
theorem finishCall_cases (h : d.finishCall iroh texts i = some d') :
    ∃ l res, d.world.links i = some l ∧ l.call.result = some res ∧
      ((∃ p, res = .ok p ∧ d' = { d with task := .returned (.ok i) }) ∨
        ∃ err w', res = .error err ∧ WorldSteps iroh d.world (.lose i) w' ∧
          d' = { d with
            world := w'
            task := .returned (.error (err.message texts.debug texts.parseError)) }) := by
  obtain ⟨l, hl, h⟩ := Option.bind_eq_some_iff.1 h
  obtain ⟨res, hres, h⟩ := Option.bind_eq_some_iff.1 h
  refine ⟨l, res, hl, hres, ?_⟩
  cases res with
  | ok p => exact .inl ⟨p, rfl, (Option.some.inj h).symm⟩
  | error err =>
    obtain ⟨w', hw', rfl⟩ := setWorld_cases h
    exact .inr ⟨err, w', rfl, hw', rfl⟩

/-- What a step of the task is, or of `status_query`. -/
inductive DaemonMove (iroh : Iroh) (texts : Texts) (cfg : TaskConfig) (timeoutSecs : UInt64)
    (d : Daemon) : DaemonEvent → Daemon → Prop
  | registering {nowMs : Int64} (task : d.task = .starting) :
      DaemonMove iroh texts cfg timeoutSecs d (.registering nowMs)
        { d with status := d.status.setControlState .registering none nowMs, task := .connecting }
  | connected {i : ℕ} {w' : World} (task : d.task = .connecting)
      (step : WorldSteps iroh d.world (.dial i cfg.self cfg.script) w') :
      DaemonMove iroh texts cfg timeoutSecs d (.connected i)
        { d with world := w', task := .calling i }
  | unconnected {text : String} (task : d.task = .connecting) :
      DaemonMove iroh texts cfg timeoutSecs d (.unconnected text)
        { d with task := .returned (.error ("connect to server control plane: " ++ text)) }
  | called {i : ℕ} {l : Link} {p : Option EndpointId} (task : d.task = .calling i)
      (link : d.world.links i = some l) (result : l.call.result = some (.ok p)) :
      DaemonMove iroh texts cfg timeoutSecs d .returned { d with task := .returned (.ok i) }
  | uncalled {i : ℕ} {l : Link} {err : CallError} {w' : World} (task : d.task = .calling i)
      (link : d.world.links i = some l) (result : l.call.result = some (.error err))
      (step : WorldSteps iroh d.world (.lose i) w') :
      DaemonMove iroh texts cfg timeoutSecs d .returned
        { d with
          world := w'
          task := .returned (.error (err.message texts.debug texts.parseError)) }
  | registered {i : ℕ} {nowMs : Int64} (task : d.task = .returned (.ok i)) :
      DaemonMove iroh texts cfg timeoutSecs d (.settled nowMs)
        { d with status := d.status.setControlState .registered none nowMs, task := .serving i }
  | failed {msg : String} {nowMs : Int64} (task : d.task = .returned (.error msg)) :
      DaemonMove iroh texts cfg timeoutSecs d (.settled nowMs)
        { d with
          status := d.status.setControlState .reconnecting (some msg) nowMs
          task := .sleeping }
  | beat {i : ℕ} {w' : World} (task : d.task = .serving i)
      (step : WorldSteps iroh d.world (.beat i) w') :
      DaemonMove iroh texts cfg timeoutSecs d .beat { d with world := w', task := .beaten i }
  | recorded {i : ℕ} {nowMs : Int64} (task : d.task = .beaten i) :
      DaemonMove iroh texts cfg timeoutSecs d (.recorded nowMs)
        { d with status := d.status.recordHeartbeat nowMs, task := .serving i }
  | broken {i : ℕ} {w' : World} (task : d.task = .serving i)
      (step : WorldSteps iroh d.world (.lose i) w') :
      DaemonMove iroh texts cfg timeoutSecs d .broken { d with world := w', task := .starting }
  | woken (task : d.task = .sleeping) :
      DaemonMove iroh texts cfg timeoutSecs d .woken { d with task := .starting }
  | poll {expired : Bool} {query : Query} (polling : d.query = .polling)
      (goes : query = .polling ∨ query = .printing) :
      DaemonMove iroh texts cfg timeoutSecs d (.poll expired) { d with query }
  | print (printing : d.query = .printing) :
      DaemonMove iroh texts cfg timeoutSecs d .print
        { d with query := .checking d.status.control }
  | check {shown : ControlStatus} (checking : d.query = .checking shown) :
      DaemonMove iroh texts cfg timeoutSecs d .check
        { d with query := .returned shown (queryResult timeoutSecs d.status.control.state) }
  | consumer {name : String} {state : ConsumerState} {mode err : Option String} {nowMs : Int64} :
      DaemonMove iroh texts cfg timeoutSecs d (.consumer name state mode err nowMs)
        { d with status := d.status.setConsumerState name state mode err nowMs }
  | world {e : Event} {w' : World} (step : WorldSteps iroh d.world e w') :
      DaemonMove iroh texts cfg timeoutSecs d (.world e) { d with world := w' }

theorem daemon_move (h : DaemonSteps iroh texts cfg timeoutSecs d e d') :
    DaemonMove iroh texts cfg timeoutSecs d e d' := by
  have h' : d.next iroh texts cfg timeoutSecs e = some d' := h
  cases e with
  | registering nowMs =>
    simp only [Daemon.next] at h'
    split at h'
    · rename_i htask
      obtain rfl := Option.some.inj h'
      exact .registering htask
    · cases h'
  | connected i =>
    simp only [Daemon.next] at h'
    split at h'
    · rename_i htask
      obtain ⟨w', hw', rfl⟩ := setWorld_cases h'
      exact .connected htask hw'
    · cases h'
  | unconnected text =>
    simp only [Daemon.next] at h'
    split at h'
    · rename_i htask
      obtain rfl := Option.some.inj h'
      exact .unconnected htask
    · cases h'
  | returned =>
    simp only [Daemon.next] at h'
    split at h'
    · rename_i i htask
      obtain ⟨l, res, hl, hres, ⟨p, rfl, rfl⟩ | ⟨err, w', rfl, hw', rfl⟩⟩ := finishCall_cases h'
      · exact .called htask hl hres
      · exact .uncalled htask hl hres hw'
    · cases h'
  | settled nowMs =>
    simp only [Daemon.next] at h'
    split at h'
    · rename_i i htask
      obtain rfl := Option.some.inj h'
      exact .registered htask
    · rename_i msg htask
      obtain rfl := Option.some.inj h'
      exact .failed htask
    · cases h'
  | beat =>
    simp only [Daemon.next] at h'
    split at h'
    · rename_i i htask
      obtain ⟨w', hw', rfl⟩ := setWorld_cases h'
      exact .beat htask hw'
    · cases h'
  | recorded nowMs =>
    simp only [Daemon.next] at h'
    split at h'
    · rename_i i htask
      obtain rfl := Option.some.inj h'
      exact .recorded htask
    · cases h'
  | broken =>
    simp only [Daemon.next] at h'
    split at h'
    · rename_i i htask
      split_ifs at h'
      obtain ⟨w', hw', rfl⟩ := setWorld_cases h'
      exact .broken htask hw'
    · cases h'
  | woken =>
    simp only [Daemon.next] at h'
    split at h'
    · rename_i htask
      obtain rfl := Option.some.inj h'
      exact .woken htask
    · cases h'
  | poll expired =>
    simp only [Daemon.next] at h'
    split at h'
    · rename_i hquery
      split_ifs at h'
      · obtain rfl := Option.some.inj h'
        exact .poll hquery (.inr rfl)
      · obtain rfl := Option.some.inj h'
        exact .poll hquery (.inl rfl)
    · cases h'
  | print =>
    simp only [Daemon.next] at h'
    split at h'
    · rename_i hquery
      obtain rfl := Option.some.inj h'
      exact .print hquery
    · cases h'
  | check =>
    simp only [Daemon.next] at h'
    split at h'
    · rename_i shown hquery
      obtain rfl := Option.some.inj h'
      exact .check hquery
    · cases h'
  | consumer name state mode err nowMs =>
    obtain rfl := Option.some.inj h'
    exact .consumer
  | world e =>
    simp only [Daemon.next] at h'
    split_ifs at h'
    obtain ⟨w', hw', rfl⟩ := setWorld_cases h'
    exact .world hw'

/-- The network makes a step that is seen, or one that the server has no part in, or none. -/
theorem daemon_world (h : DaemonSteps iroh texts cfg timeoutSecs d e d') :
    d'.world = d.world ∨ ∃ e', WorldSteps iroh d.world e' d'.world ∧
      (e.world? cfg = some e' ∨ e'.served = none) := by
  cases daemon_move h with
  | connected _ step => exact .inr ⟨_, step, .inl rfl⟩
  | uncalled _ _ _ step => exact .inr ⟨_, step, .inr rfl⟩
  | beat _ step => exact .inr ⟨_, step, .inr rfl⟩
  | broken _ step => exact .inr ⟨_, step, .inr rfl⟩
  | world step => exact .inr ⟨_, step, .inl rfl⟩
  | _ => exact .inl rfl

end Steps

end MeshlyCore.Mesh
