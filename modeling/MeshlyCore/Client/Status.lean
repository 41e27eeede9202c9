import MeshlyCore.Client.Dial

/-!
# The status of a client

`status.rs`: what `--status` shows. The registration task and the tasks of the consumed services
push their state into it, each under its own lock; a snapshot is taken by whoever wants one. The
times are what the clock says, which nothing compares.
-/

namespace MeshlyCore.Client

/-- The state of the session with the server. -/
inductive ControlState where
  | unregistered
  | registering
  | registered
  | reconnecting
  deriving DecidableEq

/-- The rendering `{:?}`. -/
def ControlState.debug : ControlState → String
  | .unregistered => "Unregistered"
  | .registering => "Registering"
  | .registered => "Registered"
  | .reconnecting => "Reconnecting"

/-- The state of a consumed service. -/
inductive ConsumerState where
  | idle
  | dialing
  | live
  | failed
  deriving DecidableEq

structure ControlStatus where
  state : ControlState := .unregistered
  lastRegisteredAtMs : Option Int64 := none
  lastHeartbeatAtMs : Option Int64 := none
  lastError : Option String := none
  deriving DecidableEq

structure ConsumerStatus where
  state : ConsumerState := .idle
  mode : Option String := none
  lastAttemptAtMs : Option Int64 := none
  lastSuccessAtMs : Option Int64 := none
  lastError : Option String := none
  forwardedStreams : UInt64 := 0
  deriving DecidableEq

def saturatingAddOne (n : UInt64) : UInt64 := if n.toNat = 2 ^ 64 - 1 then n else n + 1

theorem toNat_saturatingAddOne (n : UInt64) :
    (saturatingAddOne n).toNat = min (n.toNat + 1) (2 ^ 64 - 1) := by
  have hlt := n.toNat_lt
  unfold saturatingAddOne
  split_ifs with hmax
  · omega
  · rw [UInt64.toNat_add]
    have hone : (1 : UInt64).toNat = 1 := rfl
    rw [hone]
    omega

/-- The update of `set_consumer_state`, on the entry it finds. -/
def ConsumerStatus.set (state : ConsumerState) (mode err : Option String) (nowMs : Int64)
    (s : ConsumerStatus) : ConsumerStatus where
  state := state
  mode := mode
  lastAttemptAtMs := some nowMs
  lastError :=
    match err with
    | some e => some e
    | none => if state = .live then none else s.lastError
  lastSuccessAtMs := if state = .live then some nowMs else s.lastSuccessAtMs
  forwardedStreams := if state = .live then saturatingAddOne s.forwardedStreams
    else s.forwardedStreams

structure RuntimeStatus where
  control : ControlStatus
  consumers : String → Option ConsumerStatus

namespace RuntimeStatus

/-- Every configured service is there from the start. -/
def new (consumerNames : List String) : RuntimeStatus where
  control := {}
  consumers name := if name ∈ consumerNames then some {} else none

def setControlState (state : ControlState) (err : Option String) (nowMs : Int64)
    (s : RuntimeStatus) : RuntimeStatus :=
  { s with control := { s.control with
      state
      lastError := err
      lastRegisteredAtMs :=
        if state = .registered then some nowMs else s.control.lastRegisteredAtMs } }

def recordHeartbeat (nowMs : Int64) (s : RuntimeStatus) : RuntimeStatus :=
  { s with control := { s.control with lastHeartbeatAtMs := some nowMs } }

def setConsumerState (name : String) (state : ConsumerState) (mode err : Option String)
    (nowMs : Int64) (s : RuntimeStatus) : RuntimeStatus :=
  let entry := (s.consumers name).getD {}
  { s with consumers :=
      Function.update s.consumers name (some (entry.set state mode err nowMs)) }

end RuntimeStatus

/-! ## `status_query` -/

/-- The states in which `status_query` stops polling. -/
def ControlState.isSettled : ControlState → Bool
  | .registered => true
  | .reconnecting => true
  | _ => false

def unsettledMessage (timeoutSecs : UInt64) (state : ControlState) : String :=
  "control plane did not reach Registered within " ++ toString timeoutSecs.toNat ++
    "s (state=" ++ state.debug ++ ")"

/-- What it returns, on its last look. -/
def queryResult (timeoutSecs : UInt64) (state : ControlState) : Except String Unit :=
  if state = .registered then .ok () else .error (unsettledMessage timeoutSecs state)

end MeshlyCore.Client
