import MeshlyCore.Client.Dial
import MeshlyCore.Client.Status

/-!
# What `--status` shows of the consumed services

Every `dial_stream` reports how it goes: that it begins, that a dial gave a stream, and the error of
a relayed dial. A direct dial that fails is not reported, nor is a subscribe that fails. The streams
of all consumed services report into one status, each report under its lock, and a stream goes on
only after its report. So reports of different streams come in any order.

**Theorem (`consumer_status`).** What is shown of a service is what the reports on it make of it, in
the order they came; each of its streams has reported all that has happened to it, once and in
order, but for the report it is about to make.
-/

namespace MeshlyCore.Client

open Machine

/-- The error chain of `dial_relay`, as `{:#}` prints it. -/
def DialFailure.relayMessage (dbg : Debug) : DialFailure → String
  | .alpn e => alpnMessage dbg e
  | .connect text => "connect to server relay: " ++ text
  | .openBi text => text
  | .writeOpen text => text
  | .writeHello text => "relay: write auth hello: " ++ text
  | .readNonce text => text
  | .authErr code reason => "relay auth err " ++ rejection code reason
  | .expectedNonce got => "expected AuthNonce from relay, got " ++ dbg.frame got
  | .writeProof text => text
  | .rejected code reason => "relay auth rejected: " ++ rejection code reason
  | .expectedOk got => "expected AuthOk from relay, got " ++ dbg.frame got
  | .lost text =>
      "relay auth rejected: " ++
        rejection Protocol.authErrBadProof ("connection lost (" ++ text ++ ")")

/-! ## Reports -/

/-- What a `dial_stream` tells the status. -/
inductive Report where
  | dialing
  | live (relayed : Bool)
  | failed (f : DialFailure)

namespace Report

def state : Report → ConsumerState
  | .dialing => .dialing
  | .live _ => .live
  | .failed _ => .failed

def mode : Report → Option String
  | .live true => some "relay"
  | .live false => some "direct"
  | _ => none

def error (dbg : Debug) : Report → Option String
  | .failed f => some (f.relayMessage dbg)
  | _ => none

/-- The report of a stream that is ready. -/
def isLive : Report → Bool
  | .live _ => true
  | _ => false

/-- The report of how a dial ended. -/
def isOutcome : Report → Bool
  | .dialing => false
  | _ => true

def apply (dbg : Debug) (name : String) (nowMs : Int64) (r : Report) :
    RuntimeStatus → RuntimeStatus :=
  RuntimeStatus.setConsumerState name r.state r.mode (r.error dbg) nowMs

end Report

/-- What a step of a `dial_stream` has it report. -/
def Act.report (name : String) : Act → Option Report
  | .begin => some .dialing
  | .direct x =>
      match dialDirect name x with
      | .ok () => some (.live false)
      | .error _ => none
  | .relay x =>
      match dialRelay x with
      | .ok () => some (.live true)
      | .error f => some (.failed f)
  | _ => none

/-- The consumed services of a client, by their names, with the reports their streams are about to
make. -/
structure Forwards where
  consumers : String → Consumer
  due : String → ℕ → Option Report
  status : RuntimeStatus

def Forwards.init (names : List String) : Forwards :=
  ⟨fun _ => Consumer.init none, fun _ _ => none, .new names⟩

inductive ForwardEvent where
  | dials (name : String) (e : Event)
  | reports (name : String) (run : ℕ) (nowMs : Int64)
  /-- The registration task. -/
  | control (state : ControlState) (err : Option String) (nowMs : Int64)
  | heartbeat (nowMs : Int64)

/-- One step of the client. A stream that has a report to make makes it first. -/
def Forwards.next (names : List String) (reconnect : ReconnectConfig) (dbg : Debug) (s : Forwards) :
    ForwardEvent → Option Forwards
  | .dials name e =>
      match s.due name e.run with
      | some _ => none
      | none =>
          if name ∈ names then
            (Consumer.next ⟨name, reconnect⟩ dbg (s.consumers name) e).map fun c =>
              { s with
                consumers := Function.update s.consumers name c
                due := Function.update s.due name
                  (Function.update (s.due name) e.run (e.act.report name)) }
          else none
  | .reports name run nowMs => (s.due name run).map fun r =>
      { s with
        due := Function.update s.due name (Function.update (s.due name) run none)
        status := r.apply dbg name nowMs s.status }
  | .control state err nowMs => some { s with status := s.status.setControlState state err nowMs }
  | .heartbeat nowMs => some { s with status := s.status.recordHeartbeat nowMs }

abbrev Forwarding (names : List String) (reconnect : ReconnectConfig) (dbg : Debug) :
    Forwards → ForwardEvent → Forwards → Prop :=
  stepOf (Forwards.next names reconnect dbg)

/-! ## What is reported -/

/-- A report on the service `name`. -/
def reportOn (name : String) (s : Forwards) : ForwardEvent → Option Report
  | .reports n run _ => if n = name then s.due n run else none
  | _ => none

/-- A report of its stream `i`. -/
def reportOf (name : String) (i : ℕ) (s : Forwards) : ForwardEvent → Option Report
  | .reports n run _ => if n = name ∧ run = i then s.due n run else none
  | _ => none

/-- What happens to that stream, as it is to be reported. -/
def happens (name : String) (i : ℕ) : ForwardEvent → Option Report
  | .dials n e => if n = name ∧ e.run = i then e.act.report name else none
  | _ => none

/-- A dial of the service gives a stream. -/
def givesStream (name : String) : ForwardEvent → Bool
  | .dials n e => n = name ∧ (e.act.report name).any Report.isLive
  | _ => false

/-- What a service shows, after the reports on it: the state and the mode are those of the last
report, the error is that of the last dial that was reported, and every stream is counted. -/
structure Shows (dbg : Debug) (rs : List Report) (st : ConsumerStatus) : Prop where
  state : st.state = (rs.getLast?.map Report.state).getD .idle
  mode : st.mode = rs.getLast?.bind Report.mode
  lastError : st.lastError = (rs.filter Report.isOutcome).getLast?.bind (Report.error dbg)
  forwardedStreams : st.forwardedStreams.toNat = min (rs.countP Report.isLive) (2 ^ 64 - 1)

section Runs

variable {names : List String} {reconnect : ReconnectConfig} {dbg : Debug} {s s' : Forwards}
  {e : ForwardEvent} {es : List ForwardEvent} {name : String}

/-- The steps, one by one. -/
inductive ForwardMove (names : List String) (reconnect : ReconnectConfig) (dbg : Debug)
    (s : Forwards) : ForwardEvent → Forwards → Prop
  | dials {n : String} {e : Event} {c : Consumer} (mem : n ∈ names)
      (quiet : s.due n e.run = none) (step : Steps ⟨n, reconnect⟩ dbg (s.consumers n) e c) :
      ForwardMove names reconnect dbg s (.dials n e)
        { s with
          consumers := Function.update s.consumers n c
          due := Function.update s.due n
            (Function.update (s.due n) e.run (e.act.report n)) }
  | reports {n : String} {run : ℕ} {nowMs : Int64} {r : Report} (due : s.due n run = some r) :
      ForwardMove names reconnect dbg s (.reports n run nowMs)
        { s with
          due := Function.update s.due n (Function.update (s.due n) run none)
          status := r.apply dbg n nowMs s.status }
  | control {state : ControlState} {err : Option String} {nowMs : Int64} :
      ForwardMove names reconnect dbg s (.control state err nowMs)
        { s with status := s.status.setControlState state err nowMs }
  | heartbeat {nowMs : Int64} :
      ForwardMove names reconnect dbg s (.heartbeat nowMs)
        { s with status := s.status.recordHeartbeat nowMs }

theorem forward_move (h : Forwarding names reconnect dbg s e s') :
    ForwardMove names reconnect dbg s e s' := by
  unfold Forwarding stepOf Forwards.next at h
  cases e with
  | dials n e =>
    simp only at h
    split at h
    · cases h
    · rename_i hquiet
      split_ifs at h with hmem
      obtain ⟨c, hc, rfl⟩ := Option.map_eq_some_iff.1 h
      exact .dials hmem hquiet hc
  | reports n run nowMs =>
    obtain ⟨r, hr, rfl⟩ := Option.map_eq_some_iff.1 h
    exact .reports hr
  | control state err nowMs =>
    obtain rfl := Option.some.inj h
    exact .control
  | heartbeat nowMs =>
    obtain rfl := Option.some.inj h
    exact .heartbeat

theorem observe_snoc {ℓ : Type*} {label : Forwards → ForwardEvent → Option ℓ} {t : Forwards}
    (hrun : Run (Forwarding names reconnect dbg) t es s)
    (hstep : Forwarding names reconnect dbg s e s') :
    observe (Forwards.next names reconnect dbg) label t (es ++ [e]) =
      observe (Forwards.next names reconnect dbg) label t es ++ (label s e).toList := by
  have hnext : Forwards.next names reconnect dbg s e = some s' := hstep
  rw [observe_append hrun, observe, hnext, Option.map_some, Option.getD_some, observe,
    List.append_nil]

/-- One more report. -/
theorem Shows.snoc {rs : List Report} {st : ConsumerStatus} (h : Shows dbg rs st) (r : Report)
    (nowMs : Int64) :
    Shows dbg (rs ++ [r]) (st.set r.state r.mode (r.error dbg) nowMs) := by
  refine ⟨by simp [ConsumerStatus.set], by simp [ConsumerStatus.set], ?_, ?_⟩
  · cases r with
    | dialing =>
      simp only [ConsumerStatus.set, Report.error, Report.state, List.filter_append]
      simpa [Report.isOutcome] using h.lastError
    | live relayed => simp [ConsumerStatus.set, Report.error, Report.state, Report.isOutcome]
    | failed f => simp [ConsumerStatus.set, Report.error, Report.isOutcome]
  · have hcount := h.forwardedStreams
    cases r with
    | dialing => simpa [ConsumerStatus.set, Report.state, Report.isLive] using hcount
    | live relayed =>
      simp only [ConsumerStatus.set, Report.state, if_true, toNat_saturatingAddOne, hcount,
        List.countP_append, List.countP_singleton, Report.isLive]
      omega
    | failed f => simpa [ConsumerStatus.set, Report.state, Report.isLive] using hcount

/-- What a step does to what stream `i` has to report. -/
theorem due_step (h : Forwarding names reconnect dbg s e s') (name : String) (i : ℕ) :
    (reportOf name i s e).toList ++ (s'.due name i).toList =
      (s.due name i).toList ++ (happens name i e).toList := by
  cases forward_move h with
  | @dials n e c mem quiet step =>
    by_cases hn : n = name
    · subst hn
      by_cases hi : e.run = i
      · subst hi
        simp [reportOf, happens, quiet]
      · simp [reportOf, happens, hi, Function.update_of_ne (Ne.symm hi)]
    · simp [reportOf, happens, hn, Function.update_of_ne (Ne.symm hn)]
  | @reports n run nowMs r due =>
    by_cases hn : n = name
    · subst hn
      by_cases hi : run = i
      · subst hi
        simp [reportOf, happens, due]
      · simp [reportOf, happens, hi, Function.update_of_ne (Ne.symm hi)]
    · simp [reportOf, happens, hn, Function.update_of_ne (Ne.symm hn)]
  | control => simp [reportOf, happens]
  | heartbeat => simp [reportOf, happens]

/-- **No report is lost, made twice or out of turn**: what a stream has reported and is about to
report is what has happened to it. -/
theorem reports_run (hrun : Run (Forwarding names reconnect dbg) (.init names) es s) (name : String)
    (i : ℕ) :
    observe (Forwards.next names reconnect dbg) (reportOf name i) (.init names) es ++
      (s.due name i).toList = es.filterMap (happens name i) := by
  refine Run.snoc_induction (motive := fun es s =>
    observe (Forwards.next names reconnect dbg) (reportOf name i) (.init names) es ++
      (s.due name i).toList = es.filterMap (happens name i)) rfl ?_ hrun
  intro es s e s' hes ih hstep
  rw [observe_snoc hes hstep, List.append_assoc, due_step hstep, ← List.append_assoc, ih,
    List.filterMap_append]
  cases hhappens : happens name i e <;> simp [hhappens]

/-- The streams of a service that are ready and about to say so. -/
def Waiting (name : String) (s : Forwards) (waiting : Finset ℕ) : Prop :=
  ∀ i, i ∈ waiting ↔ (s.due name i).any Report.isLive

theorem waiting_step (h : Forwarding names reconnect dbg s e s') {waiting : Finset ℕ}
    (hw : Waiting name s waiting) : ∃ waiting', Waiting name s' waiting' ∧
      waiting.card + (givesStream name e).toNat =
        (reportOn name s e).toList.countP Report.isLive + waiting'.card := by
  cases forward_move h with
  | @dials n e c mem quiet step =>
    by_cases hn : n = name
    · subst hn
      have hnot : e.run ∉ waiting := by
        rw [hw e.run, quiet]
        exact Bool.false_ne_true
      cases hlive : (e.act.report n).any Report.isLive with
      | true =>
        refine ⟨insert e.run waiting, fun i => ?_, ?_⟩
        · by_cases hi : i = e.run
          · subst hi
            simpa using hlive
          · simpa [hi] using hw i
        · rw [Finset.card_insert_of_notMem hnot]
          simp [givesStream, reportOn, hlive]
      | false =>
        refine ⟨waiting, fun i => ?_, by simp [givesStream, reportOn, hlive]⟩
        by_cases hi : i = e.run
        · subst hi
          simp [hnot, hlive]
        · simpa [hi] using hw i
    · refine ⟨waiting, fun i => ?_, by simp [givesStream, reportOn, hn]⟩
      simpa [Function.update_of_ne (Ne.symm hn)] using hw i
  | @reports n run nowMs r due =>
    by_cases hn : n = name
    · subst hn
      have hmem := hw run
      rw [due] at hmem
      cases hlive : r.isLive with
      | true =>
        have hin : run ∈ waiting := hmem.2 hlive
        refine ⟨waiting.erase run, fun i => ?_, ?_⟩
        · by_cases hi : i = run
          · subst hi
            simp
          · simpa [hi] using hw i
        · have hcard := Finset.card_erase_add_one hin
          simp only [givesStream, reportOn, due, if_true, Option.toList_some,
            List.countP_singleton, hlive, Bool.toNat_false]
          omega
      | false =>
        have hnot : run ∉ waiting := fun hin => by
          have := hmem.1 hin
          rw [Option.any_some, hlive] at this
          cases this
        refine ⟨waiting, fun i => ?_, by simp [givesStream, reportOn, due, hlive]⟩
        by_cases hi : i = run
        · subst hi
          simp [hnot]
        · simpa [hi] using hw i
    · refine ⟨waiting, fun i => ?_, by simp [givesStream, reportOn, hn]⟩
      simpa [Function.update_of_ne (Ne.symm hn)] using hw i
  | control => exact ⟨waiting, hw, by simp [givesStream, reportOn]⟩
  | heartbeat => exact ⟨waiting, hw, by simp [givesStream, reportOn]⟩

theorem waiting_run (hrun : Run (Forwarding names reconnect dbg) (.init names) es s)
    (name : String) : ∃ waiting, Waiting name s waiting ∧
      es.countP (givesStream name) =
        (observe (Forwards.next names reconnect dbg) (reportOn name) (.init names) es).countP
          Report.isLive + waiting.card := by
  refine Run.snoc_induction (motive := fun es s => ∃ waiting, Waiting name s waiting ∧
    es.countP (givesStream name) =
      (observe (Forwards.next names reconnect dbg) (reportOn name) (.init names) es).countP
        Report.isLive + waiting.card) ?_ ?_ hrun
  · exact ⟨∅, fun i => by simp [Forwards.init], rfl⟩
  · intro es s e s' hes ih hstep
    obtain ⟨waiting, hw, hcount⟩ := ih
    obtain ⟨waiting', hw', hstepCount⟩ := waiting_step hstep hw
    refine ⟨waiting', hw', ?_⟩
    have hone : [e].countP (givesStream name) = (givesStream name e).toNat := by
      cases hgives : givesStream name e <;> simp [hgives]
    rw [observe_snoc hes hstep, List.countP_append, List.countP_append, hone, hcount]
    omega

/-- The entries of the status are those of the configured services, and each shows its reports. -/
def ShowsAll (names : List String) (dbg : Debug) (rs : String → List Report) (s : Forwards) :
    Prop :=
  (∀ n, n ∉ names → s.status.consumers n = none ∧ ∀ i, s.due n i = none) ∧
    ∀ n ∈ names, ∃ st, s.status.consumers n = some st ∧ Shows dbg (rs n) st

theorem showsAll_step (h : Forwarding names reconnect dbg s e s') {rs : String → List Report}
    (hs : ShowsAll names dbg rs s) :
    ShowsAll names dbg (fun n => rs n ++ (reportOn n s e).toList) s' := by
  obtain ⟨hout, hin⟩ := hs
  cases forward_move h with
  | @dials n e c mem quiet step =>
    refine ⟨fun m hm => ⟨(hout m hm).1, fun i => ?_⟩, fun m hm => ?_⟩
    · have hne : m ≠ n := fun heq => hm (heq ▸ mem)
      simpa [hne] using (hout m hm).2 i
    · simpa [reportOn] using hin m hm
  | @reports n run nowMs r due =>
    have hmem : n ∈ names := by
      by_contra hn
      rw [(hout n hn).2 run] at due
      cases due
    refine ⟨fun m hm => ?_, fun m hm => ?_⟩
    · have hne : m ≠ n := fun heq => hm (heq ▸ hmem)
      simpa [Report.apply, RuntimeStatus.setConsumerState, hne] using hout m hm
    · obtain ⟨st, hst, hshows⟩ := hin m hm
      by_cases hne : m = n
      · subst hne
        refine ⟨st.set r.state r.mode (r.error dbg) nowMs, ?_, ?_⟩
        · simp [Report.apply, RuntimeStatus.setConsumerState, hst]
        · simpa [reportOn, due] using hshows.snoc r nowMs
      · refine ⟨st, ?_, ?_⟩
        · simpa [Report.apply, RuntimeStatus.setConsumerState, hne] using hst
        · simpa [reportOn, Ne.symm hne] using hshows
  | control => exact ⟨hout, by simpa [reportOn, RuntimeStatus.setControlState] using hin⟩
  | heartbeat => exact ⟨hout, by simpa [reportOn, RuntimeStatus.recordHeartbeat] using hin⟩

theorem showsAll_run (hrun : Run (Forwarding names reconnect dbg) (.init names) es s) :
    ShowsAll names dbg (fun n =>
      observe (Forwards.next names reconnect dbg) (reportOn n) (.init names) es) s := by
  refine Run.snoc_induction (motive := fun es s => ShowsAll names dbg (fun n =>
    observe (Forwards.next names reconnect dbg) (reportOn n) (.init names) es) s) ?_ ?_ hrun
  · refine ⟨fun n hn => ⟨if_neg hn, fun _ => rfl⟩, fun n hn => ⟨{}, if_pos hn, ?_⟩⟩
    exact ⟨rfl, rfl, rfl, rfl⟩
  · intro es s e s' hes ih hstep
    simpa only [observe_snoc hes hstep] using showsAll_step hstep ih

/-- **The status of the consumed services.** A configured service shows what the reports on it make
of it, in the order they came, whatever the other services and the registration task do; nothing
else is shown. What a stream has reported, with the report it is about to make, is all that has
happened to it, once and in order. And when no report is due every stream that was dialled is
counted. -/
theorem consumer_status (hrun : Run (Forwarding names reconnect dbg) (.init names) es s)
    (name : String) :
    (name ∈ names → ∃ st, s.status.consumers name = some st ∧
      Shows dbg (observe (Forwards.next names reconnect dbg) (reportOn name) (.init names) es) st ∧
      ((∀ i, s.due name i = none) →
        st.forwardedStreams.toNat = min (es.countP (givesStream name)) (2 ^ 64 - 1))) ∧
    (name ∉ names → s.status.consumers name = none) ∧
    ∀ i, observe (Forwards.next names reconnect dbg) (reportOf name i) (.init names) es ++
      (s.due name i).toList = es.filterMap (happens name i) := by
  have hall := showsAll_run hrun
  refine ⟨fun hname => ?_, fun hname => (hall.1 name hname).1, reports_run hrun name⟩
  obtain ⟨st, hst, hshows⟩ := hall.2 name hname
  refine ⟨st, hst, hshows, fun hquiet => ?_⟩
  obtain ⟨waiting, hw, hcount⟩ := waiting_run hrun name
  have hempty : waiting = ∅ := by
    refine Finset.eq_empty_of_forall_notMem fun i hi => ?_
    have hlive := (hw i).1 hi
    rw [hquiet i] at hlive
    cases hlive
  rw [hshows.forwardedStreams, hcount, hempty, Finset.card_empty, Nat.add_zero]

end Runs

/-- A stream is turned down over the relay, and goes on sleeping. -/
def failedEvents : List ForwardEvent :=
  [.dials "web" ⟨0, .begin⟩, .control .registering none 1, .reports "web" 0 2] ++
    (subscribeEvents 0).map (.dials "web") ++
    [.dials "web" ⟨0, .direct timedOut⟩, .dials "web" ⟨0, .relay rejectedExchange⟩,
      .reports "web" 0 3]

theorem exec_failed :
    (exec (Forwards.next ["ssh", "web"] {} plain) (.init ["ssh", "web"]) failedEvents).isSome := by
  decide

def failedForwards : Forwards := Option.get _ exec_failed

theorem observe_failed :
    observe (Forwards.next ["ssh", "web"] {} plain) (reportOn "web") (.init ["ssh", "web"])
      failedEvents = [.dialing, .failed (.rejected Protocol.authErrBadProof "bad HMAC proof")] := by
  rfl

/-- The service shows the failure, with the error of the relayed dial. -/
theorem consumer_status_failed :
    ∃ st, failedForwards.status.consumers "web" = some st ∧ st.state = .failed ∧ st.mode = none ∧
      st.lastError = some ("relay auth rejected: " ++
        rejection Protocol.authErrBadProof "bad HMAC proof") ∧
      st.forwardedStreams.toNat = 0 := by
  have hrun := run_of_exec (Option.some_get exec_failed).symm
  obtain ⟨st, hst, hshows, -⟩ := (consumer_status hrun "web").1 (by simp)
  rw [observe_failed] at hshows
  exact ⟨st, hst, hshows.state, hshows.mode, hshows.lastError, hshows.forwardedStreams⟩

end MeshlyCore.Client
