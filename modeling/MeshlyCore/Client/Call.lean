import MeshlyCore.Client.Dial

/-!
# Calls to the control plane

`register_with_server` and `subscribe`: a control connection of its own, a hello, and then one
request after the other. Every request has a new stream, and the next one is not sent before the
reply to it was read. A reply that is not the expected one ends the call with an error, and so does
a stream that fails.

The reply to a registration repeats the name, which the client does not compare with its own; it
is the server that keeps them together (`MeshlyCore.Mesh.World`).
-/

namespace MeshlyCore.Client

open Protocol

/-! ## Requests -/

inductive Request where
  | hello (h : Hello)
  /-- A service, or a directory that is served. -/
  | register (service : String) (isStatic : Bool)
  | subscribe (service : String)
  deriving DecidableEq

namespace Request

def frame : Request → Frame
  | .hello h => .hello h
  | .register service _ => .register ⟨service⟩
  | .subscribe service => .subscribe ⟨service⟩

end Request

inductive CallError where
  /-- The connection fails. -/
  | lost (text : String)
  | rejected (r : Request) (code : UInt16) (reason : String)
  | unexpected (r : Request) (got : Frame)
  | noProvider (service : String)
  | invalidId (id : String)
  deriving DecidableEq

/-- What the client makes of the reply to a request: the id in it, if there is one. -/
def Request.judge : Request → Frame → Except CallError (Option String)
  | .hello _, .helloOk _ => .ok none
  | .register _ _, .registerOk _ => .ok none
  | .subscribe _, .subscribeOk ⟨_, some id, _⟩ => .ok (some id)
  | .subscribe service, .subscribeOk ⟨_, none, _⟩ => .error (.noProvider service)
  | r, .controlError code reason => .error (.rejected r code reason)
  | r, other => .error (.unexpected r other)

def codeAndReason (code : UInt16) (reason : String) : String :=
  "code=" ++ toString code.toNat ++ " reason=" ++ reason

/-- The error of a call, as `{:#}` prints it; `parseError` is the text of iroh's error. -/
def CallError.message (dbg : Debug) (parseError : String → String) : CallError → String
  | .lost text => text
  | .rejected (.hello _) code reason => "server rejected hello: " ++ codeAndReason code reason
  | .rejected (.register service false) code reason =>
      "server rejected register(" ++ service ++ "): " ++ codeAndReason code reason
  | .rejected (.register service true) code reason =>
      "server rejected register(" ++ service ++ " static): " ++ codeAndReason code reason
  | .rejected (.subscribe _) code reason => "subscribe rejected: " ++ codeAndReason code reason
  | .unexpected (.hello _) got => "unexpected frame after hello: " ++ dbg.frame got
  | .unexpected (.register _ _) got => "unexpected frame after register: " ++ dbg.frame got
  | .unexpected (.subscribe _) got => "unexpected frame after subscribe: " ++ dbg.frame got
  | .noProvider service => "server has no provider for service " ++ dbg.str service
  | .invalidId id => "invalid provider id " ++ dbg.str id ++ ": " ++ parseError id

/-! ## Scripts -/

/-- The two calls, with what they are called with. -/
inductive Script where
  | registerWithServer (groupToken clientInfo : String) (services staticServices : List String)
  | subscribe (groupToken clientInfo service : String)
  deriving DecidableEq

namespace Script

/-- What is said in the hello. -/
def intro : Script → Hello
  | .registerWithServer token info _ _ => ⟨token, info⟩
  | .subscribe token info _ => ⟨token, info⟩

/-- What is asked after it. -/
def body : Script → List Request
  | .registerWithServer _ _ services staticServices =>
      services.map (.register · false) ++ staticServices.map (.register · true)
  | .subscribe _ _ service => [.subscribe service]

def requests (s : Script) : List Request := .hello s.intro :: s.body

end Script

/-! ## A call -/

/-- A call under way: how many requests were sent and how many replies read, and its result when
it has returned. -/
structure Call where
  script : Script
  asked : ℕ
  answered : ℕ
  result : Option (Except CallError (Option EndpointId))
  deriving DecidableEq

namespace Call

def start (s : Script) : Call := ⟨s, 0, 0, none⟩

/-- The next request is written to a new stream. -/
def ask (c : Call) : Option (Frame × Call) :=
  if c.result = none ∧ c.asked = c.answered then
    c.script.requests[c.asked]?.map fun r => (r.frame, { c with asked := c.asked + 1 })
  else none

/-- What is returned after the last reply. -/
def finish (iroh : Iroh) : Option String → Except CallError (Option EndpointId)
  | none => .ok none
  | some id =>
      match iroh.fromStr id with
      | some provider => .ok (some provider)
      | none => .error (.invalidId id)

/-- The reply to the request is read. -/
def read (iroh : Iroh) (reply : Frame) (c : Call) : Option Call :=
  if c.result = none ∧ c.answered < c.asked then
    c.script.requests[c.answered]?.map fun r =>
      match r.judge reply with
      | .error e => { c with result := some (.error e) }
      | .ok id =>
          if c.answered + 1 < c.script.requests.length then { c with answered := c.answered + 1 }
          else { c with answered := c.answered + 1, result := some (finish iroh id) }
  else none

def fail (text : String) (c : Call) : Option Call :=
  if c.result = none then some { c with result := some (.error (.lost text)) } else none

/-! ## What a call does -/

section Steps

variable {iroh : Iroh} {reply : Frame} {c c' : Call}

/-- A reply ends the call with an error, or the call goes on, or returns. -/
theorem read_cases (h : c.read iroh reply = some c') :
    c.result = none ∧ c.answered < c.asked ∧
    ∃ r, c.script.requests[c.answered]? = some r ∧
      ((∃ e, r.judge reply = .error e ∧ c' = { c with result := some (.error e) }) ∨
      ∃ id, r.judge reply = .ok id ∧
        ((c.answered + 1 < c.script.requests.length ∧ c' = { c with answered := c.answered + 1 }) ∨
        (c.answered + 1 = c.script.requests.length ∧
          c' = { c with answered := c.answered + 1, result := some (finish iroh id) }))) := by
  unfold Call.read at h
  by_cases hcond : c.result = none ∧ c.answered < c.asked
  · rw [if_pos hcond] at h
    obtain ⟨r, hr, rfl⟩ := Option.map_eq_some_iff.1 h
    refine ⟨hcond.1, hcond.2, r, hr, ?_⟩
    cases r.judge reply with
    | error e => exact .inl ⟨e, rfl, rfl⟩
    | ok id =>
      refine .inr ⟨id, rfl, ?_⟩
      by_cases hmore : c.answered + 1 < c.script.requests.length
      · exact .inl ⟨hmore, if_pos hmore⟩
      · have hlt := (List.getElem?_eq_some_iff.1 hr).1
        exact .inr ⟨by omega, if_neg hmore⟩
  · rw [if_neg hcond] at h
    cases h

theorem ask_cases {f : Frame} (h : c.ask = some (f, c')) :
    c.result = none ∧ c.asked = c.answered ∧ ∃ r, c.script.requests[c.asked]? = some r ∧
      f = r.frame ∧ c' = { c with asked := c.asked + 1 } := by
  unfold Call.ask at h
  split_ifs at h with hcond
  obtain ⟨r, hr, heq⟩ := Option.map_eq_some_iff.1 h
  obtain ⟨rfl, rfl⟩ := Prod.mk.inj heq
  exact ⟨hcond.1, hcond.2, r, hr, rfl, rfl⟩

theorem fail_cases {text : String} (h : c.fail text = some c') :
    c.result = none ∧ c' = { c with result := some (.error (.lost text)) } := by
  unfold Call.fail at h
  split_ifs at h with hcond
  exact ⟨hcond, (Option.some.inj h).symm⟩

end Steps

end Call

end MeshlyCore.Client
