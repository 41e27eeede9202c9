import MeshlyCore.Mesh.World

/-!
# Calls and sessions agree

A call has at most one request that is not answered, and a session answers the requests in their
order; so the reply a call reads is the reply to its request, and no call ever reads a frame that it
does not expect.

**Theorem (`lockstep_run`).** In every run of calls and server, every call is in lockstep with its
session.
-/

namespace MeshlyCore.Mesh

open Protocol Registry Machine Client Control

/-! ## Answers -/

/-- What is known of the server: the groups of the tokens, and what it has found for a name. -/
structure Facts where
  iroh : Iroh
  auth : String → Option String
  found : String → Option EndpointId → Prop

/-- The error of `register_service`. -/
def badName : Frame := .controlError 3 ("register failed: " ++ RegisterError.badName.message)

/-- What the server replies to a request. -/
inductive Answers (k : Facts) : Request → Frame → Prop
  | hello {h : Hello} {g : String} {sid : UInt64} (known : k.auth h.groupToken = some g) :
      Answers k (.hello h) (.helloOk ⟨sid⟩)
  | unknown {h : Hello} (unknown : k.auth h.groupToken = none) : Answers k (.hello h) unknownGroup
  | registered {svc : String} {isStatic : Bool} (short : (utf8 svc).length ≤ 32) :
      Answers k (.register svc isStatic) (.registerOk ⟨svc⟩)
  | badName {svc : String} {isStatic : Bool} (long : 32 < (utf8 svc).length) :
      Answers k (.register svc isStatic) badName
  | subscribed {svc : String} {p : Option EndpointId} (found : k.found svc p) :
      Answers k (.subscribe svc) (.subscribeOk ⟨svc, p.map k.iroh.toStr, false⟩)

/-- Why a call fails. -/
inductive Cause (k : Facts) (s : Script) : CallError → Prop
  | lost {text : String} : Cause k s (.lost text)
  | unknown (unknown : k.auth s.intro.groupToken = none) :
      Cause k s (.rejected (.hello s.intro) 1 "unknown group")
  | badName {svc : String} {isStatic : Bool} (mem : .register svc isStatic ∈ s.body)
      (long : 32 < (utf8 svc).length) :
      Cause k s (.rejected (.register svc isStatic) 3
        ("register failed: " ++ RegisterError.badName.message))
  | noProvider {svc : String} (mem : .subscribe svc ∈ s.body) (found : k.found svc none) :
      Cause k s (.noProvider svc)
  | invalidId {svc : String} {p : EndpointId} (mem : .subscribe svc ∈ s.body)
      (found : k.found svc (some p)) (invalid : k.iroh.fromStr (k.iroh.toStr p) = none) :
      Cause k s (.invalidId (k.iroh.toStr p))

/-- There is one hello. -/
theorem hello_mem {s : Script} {h : Hello} (hmem : .hello h ∈ s.requests) : h = s.intro := by
  rcases List.mem_cons.1 hmem with heq | hin
  · exact Request.hello.inj heq
  · cases s <;> simp [Script.body] at hin

/-- What a reply to a request comes to. -/
theorem judge_cases {k : Facts} {s : Script} {r : Request} {f : Frame} (h : Answers k r f)
    (hmem : r ∈ s.requests) :
    (∃ e, r.judge f = .error e ∧ Cause k s e) ∨
    (r.judge f = .ok none ∧ ∀ svc, r ≠ .subscribe svc) ∨
    ∃ svc p, r = .subscribe svc ∧ k.found svc (some p) ∧
      r.judge f = .ok (some (k.iroh.toStr p)) := by
  have hbody : ∀ r', r = r' → (∀ h, r' ≠ .hello h) → r' ∈ s.body := by
    rintro r' rfl hne
    exact (List.mem_cons.1 hmem).resolve_left (hne _)
  cases h with
  | hello known => exact .inr (.inl ⟨rfl, by simp⟩)
  | @unknown h hunknown =>
    have hintro := hello_mem hmem
    exact .inl ⟨_, rfl, hintro ▸ .unknown (hintro ▸ hunknown)⟩
  | registered short => exact .inr (.inl ⟨rfl, by simp⟩)
  | badName long => exact .inl ⟨_, rfl, .badName (hbody _ rfl (by simp)) long⟩
  | @subscribed svc p found =>
    cases p with
    | none => exact .inl ⟨_, rfl, .noProvider (hbody _ rfl (by simp)) found⟩
    | some p => exact .inr (.inr ⟨svc, p, rfl, found, rfl⟩)

/-- What a call returns. -/
def Outcome (k : Facts) (s : Script) : Except CallError (Option EndpointId) → Prop
  | .error e => Cause k s e
  | .ok none => (∃ g, k.auth s.intro.groupToken = some g) ∧
      ∀ r ∈ s.body, ∃ svc isStatic, r = .register svc isStatic ∧ (utf8 svc).length ≤ 32
  | .ok (some p) => (∃ g, k.auth s.intro.groupToken = some g) ∧
      ∃ svc q, .subscribe svc ∈ s.body ∧ k.found svc (some q) ∧
        k.iroh.fromStr (k.iroh.toStr q) = some p

/-! ## Lockstep -/

/-- The client's side: at most one request is not answered, the rest of what was sent and has not
arrived is heartbeats, and every reply that was read was a good one. The session has taken `taken`
requests and sent `sent`. -/
structure Asked (k : Facts) (taken : ℕ) (l : Link) (sent : List Frame) : Prop where
  answered_le : l.call.answered ≤ l.call.asked
  asked_le : l.call.asked ≤ l.call.answered + 1
  length_le : l.call.asked ≤ l.call.script.requests.length
  taken_le : taken ≤ l.call.asked
  up : ∃ n, l.up = ((l.call.script.requests.take l.call.asked).drop taken).map Request.frame ++
      .replicate n .heartbeat ∧ (0 < n → l.call.answered = l.call.script.requests.length)
  read : ∀ j < l.call.answered, ∃ r f id, l.call.script.requests[j]? = some r ∧
    sent[j]? = some f ∧ r.judge f = .ok id
  whole : ∀ p, l.call.result = some (.ok p) → l.call.answered = l.call.script.requests.length
  outcome : ∀ res, l.call.result = some res → Outcome k l.call.script res

/-- The session's side: it has answered the requests it has taken, in order, but for the one it is
answering. -/
structure Served (k : Facts) (taken : ℕ) (s : Script) (c : Conn) : Prop where
  sent_le : c.sent.length ≤ taken
  awaits : c.phase = .awaitHello → taken = 0
  ready : ∀ g, c.phase = .ready g → 0 < c.sent.length
  replying : ∀ reply, c.phase.reply? = some reply → c.sent.length + 1 = taken ∧
    ∃ r, s.requests[c.sent.length]? = some r ∧ Answers k r reply
  propagates : ∀ g reply, c.phase = .replying g reply false → 0 < c.sent.length
  sent : ∀ (j : ℕ) (f : Frame), c.sent[j]? = some f → ∃ r, s.requests[j]? = some r ∧ Answers k r f
  group : ∀ g, c.phase.joined = some g → k.auth s.intro.groupToken = some g

def Lockstep (k : Facts) (l : Link) (c : Conn) : Prop :=
  ∃ taken, Asked k taken l c.sent ∧ Served k taken l.call.script c

section Lockstep

variable {k : Facts} {taken : ℕ} {l : Link} {c c' : Conn} {sent : List Frame} {f : Frame}
  {call : Call}

theorem Asked.answered_le_sent (ha : Asked k taken l sent) : l.call.answered ≤ sent.length := by
  rcases Nat.eq_zero_or_pos l.call.answered with hzero | hpos
  · omega
  · obtain ⟨r, f, id, -, hf, -⟩ := ha.read (l.call.answered - 1) (by omega)
    have := (List.getElem?_eq_some_iff.1 hf).1
    omega

theorem requests_ne_nil (s : Script) : 0 < s.requests.length := Nat.succ_pos _

/-- The next request is sent. -/
theorem Asked.ask (ha : Asked k taken l sent) (hsent : sent.length ≤ taken)
    (h : l.call.ask = some (f, call)) : Asked k taken { l with call, up := l.up ++ [f] } sent := by
  obtain ⟨hnone, hidle, r, hr, rfl, rfl⟩ := Call.ask_cases h
  have hlt := (List.getElem?_eq_some_iff.1 hr).1
  have htaken : taken = l.call.asked := by
    have := ha.answered_le_sent
    have := ha.taken_le
    omega
  obtain ⟨n, hup, hbeats⟩ := ha.up
  -- Nothing is under way.
  have hn : n = 0 := by
    by_contra hne
    have := hbeats (Nat.pos_of_ne_zero hne)
    omega
  have hempty : l.up = [] := by
    rw [hup, htaken, hn, List.drop_eq_nil_of_le (List.length_take_le _ _)]
    rfl
  refine ⟨?_, ?_, hlt, ?_, ⟨0, ?_, fun hpos => absurd hpos (lt_irrefl 0)⟩, ha.read, ?_, ?_⟩
  · exact ha.answered_le.trans (Nat.le_succ _)
  · show l.call.asked + 1 ≤ l.call.answered + 1
    omega
  · exact ha.taken_le.trans (Nat.le_succ _)
  · have hone : (l.call.script.requests.take (l.call.asked + 1)).drop l.call.asked = [r] := by
      rw [List.take_add_one, hr, Option.toList_some, List.drop_append_of_le_length (by simp; omega),
        List.drop_eq_nil_of_le (List.length_take_le _ _), List.nil_append]
    rw [hempty, htaken]
    show [r.frame] = ((l.call.script.requests.take (l.call.asked + 1)).drop l.call.asked).map
      Request.frame ++ []
    rw [hone]
    rfl
  · intro p hp
    cases hnone.symm.trans hp
  · intro res hres
    cases hnone.symm.trans hres

/-- A call fails, a heartbeat is sent, the connection is lost: nothing that was read changes. -/
theorem Asked.fail {text : String} (ha : Asked k taken l sent) (h : l.call.fail text = some call) :
    Asked k taken { l with call } sent := by
  obtain ⟨-, rfl⟩ := Call.fail_cases h
  refine ⟨ha.answered_le, ha.asked_le, ha.length_le, ha.taken_le, ha.up, ha.read, ?_, ?_⟩
  · intro p hp
    cases hp
  · intro res hres
    cases hres
    exact .lost

theorem Asked.beat (ha : Asked k taken l sent) (h : l.call.result = some (.ok none)) :
    Asked k taken { l with up := l.up ++ [.heartbeat] } sent := by
  obtain ⟨n, hup, -⟩ := ha.up
  refine ⟨ha.answered_le, ha.asked_le, ha.length_le, ha.taken_le, ⟨n + 1, ?_, ?_⟩, ha.read,
    ha.whole, ha.outcome⟩
  · rw [hup, List.append_assoc, List.replicate_succ']
  · exact fun _ => ha.whole none h

/-- The outcome of a call that has read its last reply. -/
theorem outcome_finish {s : Script} {r : Request} {id : Option String}
    (hread : ∀ r ∈ s.requests, ∃ f id, Answers k r f ∧ r.judge f = .ok id)
    (hlast : s.requests.getLast? = some r) (hf : Answers k r f) (hjudge : r.judge f = .ok id) :
    Outcome k s (Call.finish k.iroh id) := by
  have hknown : ∃ g, k.auth s.intro.groupToken = some g := by
    obtain ⟨f, id, hans, hok⟩ := hread (.hello s.intro) List.mem_cons_self
    cases hans with
    | hello known => exact ⟨_, known⟩
    | unknown _ => cases hok
  have hmem : r ∈ s.requests := List.mem_of_mem_getLast? hlast
  rcases judge_cases hf hmem with ⟨e, herr, -⟩ | ⟨hnone, hr⟩ | ⟨svc, p, rfl, hfound, hsome⟩
  · rw [herr] at hjudge
    cases hjudge
  · rw [hnone] at hjudge
    cases hjudge
    refine ⟨hknown, fun r' hr' => ?_⟩
    cases s with
    | subscribe token info svc =>
      obtain rfl : Request.subscribe svc = r := Option.some.inj hlast
      exact absurd rfl (hr svc)
    | registerWithServer token info services statics =>
      obtain ⟨f', id', hans, hok⟩ := hread r' (List.mem_cons_of_mem _ hr')
      cases hans with
      | hello _ => simp [Script.body] at hr'
      | unknown _ => cases hok
      | registered short => exact ⟨_, _, rfl, short⟩
      | badName _ => cases hok
      | subscribed _ => simp [Script.body] at hr'
  · rw [hsome] at hjudge
    cases hjudge
    have hbody : .subscribe svc ∈ s.body := by
      rcases List.mem_cons.1 hmem with heq | hin
      · cases heq
      · exact hin
    simp only [Call.finish]
    cases hparse : k.iroh.fromStr (k.iroh.toStr p) with
    | some q => exact ⟨hknown, svc, p, hbody, hfound, hparse⟩
    | none => exact .invalidId hbody hfound hparse

/-- **A reply is read**, and it is the reply to the request. -/
theorem Asked.read_reply (ha : Asked k taken l c.sent) (hs : Served k taken l.call.script c)
    (hreply : c.sent[l.call.answered]? = some f) (h : l.call.read k.iroh f = some call) :
    Asked k taken { l with call } c.sent ∧ call.script = l.call.script := by
  obtain ⟨hnone, hasked, r, hr, hcase⟩ := Call.read_cases h
  obtain ⟨r', hr', hans⟩ := hs.sent _ _ hreply
  rw [hr] at hr'
  obtain rfl := Option.some.inj hr'
  have hle := ha.asked_le
  have hlen := ha.length_le
  have hlt := (List.getElem?_eq_some_iff.1 hr).1
  rcases hcase with ⟨e, hjudge, rfl⟩ | ⟨id, hjudge, hcase⟩
  · refine ⟨⟨ha.answered_le, hle, hlen, ha.taken_le, ha.up, ha.read, ?_, ?_⟩, rfl⟩
    · intro p hp
      cases hp
    · intro res hres
      obtain rfl := Option.some.inj hres
      rcases judge_cases hans (List.mem_of_getElem? hr) with ⟨e', he', hcause⟩ | ⟨hok, -⟩ |
          ⟨_, _, -, -, hok⟩
      · cases hjudge.symm.trans he'
        exact hcause
      · cases hjudge.symm.trans hok
      · cases hjudge.symm.trans hok
  -- There are no heartbeats before the end.
  have hup : ∃ n,
      l.up = ((l.call.script.requests.take l.call.asked).drop taken).map Request.frame ++
        .replicate n .heartbeat ∧
      (0 < n → l.call.answered + 1 = l.call.script.requests.length) := by
    obtain ⟨n, hup, hbeats⟩ := ha.up
    exact ⟨n, hup, fun hn => absurd (hbeats hn) hlt.ne⟩
  have hread : ∀ j < l.call.answered + 1, ∃ r f id, l.call.script.requests[j]? = some r ∧
      c.sent[j]? = some f ∧ r.judge f = .ok id := by
    intro j hj
    rcases Nat.lt_succ_iff_lt_or_eq.1 hj with hlt | rfl
    · exact ha.read j hlt
    · exact ⟨r, f, id, hr, hreply, hjudge⟩
  rcases hcase with ⟨hmore, rfl⟩ | ⟨hend, rfl⟩
  · refine ⟨⟨hasked, hle.trans (Nat.le_succ _), hlen, ha.taken_le, hup, hread, ?_, ?_⟩, rfl⟩
    · intro p hp
      cases hnone.symm.trans hp
    · intro res hres
      cases hnone.symm.trans hres
  · refine ⟨⟨hasked, hle.trans (Nat.le_succ _), hlen, ha.taken_le, hup, hread, fun _ _ => hend,
      fun res hres => ?_⟩, rfl⟩
    obtain rfl := Option.some.inj hres
    refine outcome_finish (fun r' hr' => ?_) ?_ hans hjudge
    · obtain ⟨j, hj, rfl⟩ := List.getElem_of_mem hr'
      have hj' : j < l.call.answered + 1 := hend ▸ hj
      obtain ⟨r₀, f₀, id₀, hr₀, hf₀, hjudge₀⟩ := hread j hj'
      obtain ⟨r₁, hr₁, hans₁⟩ := hs.sent j f₀ hf₀
      cases hr₀.symm.trans hr₁
      cases hr₀.symm.trans (List.getElem?_eq_getElem hj)
      exact ⟨f₀, id₀, hans₁, hjudge₀⟩
    · rw [List.getLast?_eq_getElem?, ← hend]
      exact hr

/-! ## Sessions -/

section Sessions

variable {st : ServerState} {sid : UInt64} {now : Instant} {op : Op} {s : Script} {r : Request}

/-- What the facts are about. -/
structure Facts.Hold (k : Facts) (st : ServerState) (s : Script) : Prop where
  auth : st.authenticate s.intro.groupToken = k.auth s.intro.groupToken
  found : ∀ g svc, k.auth s.intro.groupToken = some g → .subscribe svc ∈ s.body →
    k.found svc (st.lookupService g svc)

/-- A session answers a hello. -/
theorem answers_hello (hk : k.Hold st s) (hp : c.phase = .awaitHello)
    (h : c.recv k.iroh.toStr st (.frame (.hello s.intro)) sid now = some (c', op)) :
    c'.sent = c.sent ∧ ∃ reply, Answers k (.hello s.intro) reply ∧
      ((c'.phase = .rejecting ∧ reply = unknownGroup) ∨
        ∃ g, c'.phase = .replying g reply true ∧ k.auth s.intro.groupToken = some g) := by
  obtain ⟨-, hsent⟩ := recv_remote h
  refine ⟨hsent, ?_⟩
  unfold Conn.recv at h
  rw [hp] at h
  obtain ⟨rfl, -⟩ := Prod.mk.inj (Option.some.inj h)
  simp only [hk.auth]
  cases hauth : k.auth s.intro.groupToken with
  | some g => exact ⟨_, .hello hauth, .inr ⟨g, rfl, rfl⟩⟩
  | none => exact ⟨unknownGroup, .unknown hauth, .inl ⟨rfl, rfl⟩⟩

/-- A session that has said hello answers a request. -/
theorem answers_request (hk : k.Hold st s) {g : String} (hp : c.phase = .ready g)
    (hg : k.auth s.intro.groupToken = some g) (hr : r ∈ s.body)
    (h : c.recv k.iroh.toStr st (.frame r.frame) sid now = some (c', op)) :
    c'.sent = c.sent ∧ ∃ reply p, Answers k r reply ∧ c'.phase = .replying g reply p := by
  obtain ⟨-, hsent⟩ := recv_remote h
  refine ⟨hsent, ?_⟩
  unfold Conn.recv at h
  rw [hp] at h
  obtain ⟨rfl, -⟩ := Prod.mk.inj (Option.some.inj h)
  cases r with
  | hello hello => cases s <;> simp [Script.body] at hr
  | register svc isStatic =>
    simp only [Request.frame, handleRegister, Group.registerService]
    split_ifs with hlong
    · exact ⟨_, _, .badName hlong, rfl⟩
    · exact ⟨_, _, .registered (not_lt.1 hlong), rfl⟩
  | subscribe svc =>
    have hfound := hk.found g svc hg hr
    simp only [Request.frame, handleSubscribe]
    cases hlook : st.lookupService g svc with
    | some p => exact ⟨_, _, .subscribed (hlook ▸ hfound), rfl⟩
    | none => exact ⟨_, _, .subscribed (hlook ▸ hfound), rfl⟩

/-- The session is left. -/
theorem Served.leave (hs : Served k taken s c) (hsent : c'.sent = c.sent)
    (hphase : (∃ g d, c'.phase = .dropping g d) ∨ ∃ g res, c'.phase = .ended g res)
    (hjoined : ∀ g, c'.phase.joined = some g → c.phase.joined = some g) :
    Served k taken s c' := by
  have hgroup := fun g hg => hs.group g (hjoined g hg)
  have hle := hs.sent_le
  have hall := hs.sent
  rw [← hsent] at hle hall
  rcases hphase with ⟨g, d, hp⟩ | ⟨g, res, hp⟩
  all_goals
    refine ⟨hle, ?_, ?_, ?_, ?_, hall, hgroup⟩
    all_goals simp [hp, Phase.reply?]

/-- The session takes a request and is about to reply. -/
theorem Served.take {reply : Frame} (hs : Served k taken s c) (hsent : c'.sent = c.sent)
    (htaken : c.sent.length = taken) (hr : s.requests[taken]? = some r) (hans : Answers k r reply)
    (hphase : (c'.phase = .rejecting ∧ reply = unknownGroup) ∨
      ∃ g p, c'.phase = .replying g reply p ∧ k.auth s.intro.groupToken = some g ∧
        (p = false → 0 < c.sent.length)) : Served k (taken + 1) s c' := by
  have hreply : ∀ f, c'.phase.reply? = some f → f = reply := by
    intro f hf
    rcases hphase with ⟨hp, rfl⟩ | ⟨g, p, hp, -⟩
    · rw [hp] at hf
      exact (Option.some.inj hf).symm
    · rw [hp] at hf
      exact (Option.some.inj hf).symm
  refine ⟨?_, ?_, ?_, fun f hf => ?_, ?_, ?_, ?_⟩
  · rw [hsent, htaken]
    exact Nat.le_succ _
  · rcases hphase with ⟨hp, -⟩ | ⟨g, p, hp, -⟩ <;> simp [hp]
  · rcases hphase with ⟨hp, -⟩ | ⟨g, p, hp, -⟩ <;> simp [hp]
  · obtain rfl := hreply f hf
    rw [hsent, htaken]
    exact ⟨rfl, r, hr, hans⟩
  · intro g f hp'
    rw [hsent]
    rcases hphase with ⟨hp, -⟩ | ⟨g', p, hp, -, hpos⟩
    · cases hp.symm.trans hp'
    · cases hp.symm.trans hp'
      exact hpos rfl
  · rw [hsent]
    exact hs.sent
  · intro g hg
    rcases hphase with ⟨hp, -⟩ | ⟨g', p, hp, hauth, -⟩
    · rw [hp] at hg
      cases hg
    · rw [hp] at hg
      cases hg
      exact hauth

/-- **A request arrives**, and the session answers it. -/
theorem Served.recv_request (hk : k.Hold st l.call.script) (ha : Asked k taken l c.sent)
    (hs : Served k taken l.call.script c) (hlt : taken < l.call.asked)
    (hr : l.call.script.requests[taken]? = some r)
    (h : c.recv k.iroh.toStr st (.frame r.frame) sid now = some (c', op)) :
    c'.sent = c.sent ∧ Served k (taken + 1) l.call.script c' ∧
      ∃ reply, c'.phase.reply? = some reply := by
  have htaken : c.sent.length = taken := by
    have := ha.answered_le_sent
    have := ha.asked_le
    have := hs.sent_le
    omega
  cases taken with
  | zero =>
    obtain rfl : .hello l.call.script.intro = r := Option.some.inj hr
    have hp : c.phase = .awaitHello := by
      rw [List.length_eq_zero_iff] at htaken
      unfold Conn.recv at h
      split at h
      · assumption
      · rename_i g hready
        have := hs.ready g hready
        simp [htaken] at this
      · cases h
    obtain ⟨hsent, reply, hans, hphase⟩ := answers_hello hk hp h
    refine ⟨hsent, hs.take hsent htaken hr hans (hphase.imp_right fun hrep => ?_), reply, ?_⟩
    · obtain ⟨g, hp', hauth⟩ := hrep
      exact ⟨g, true, hp', hauth, by simp⟩
    · rcases hphase with ⟨hp', rfl⟩ | ⟨g, hp', -⟩ <;> rw [hp'] <;> rfl
  | succ taken =>
    have hbody : r ∈ l.call.script.body := List.mem_of_getElem? hr
    obtain ⟨g, hp⟩ : ∃ g, c.phase = .ready g := by
      unfold Conn.recv at h
      split at h
      · rename_i hp
        cases hs.awaits hp
      · exact ⟨_, by assumption⟩
      · cases h
    have hauth := hs.group g (by rw [hp]; rfl)
    obtain ⟨hsent, reply, p, hans, hp'⟩ := answers_request hk hp hauth hbody h
    exact ⟨hsent, hs.take hsent htaken hr hans (.inr ⟨g, p, hp', hauth, fun _ => by omega⟩), reply,
      by rw [hp']; rfl⟩

/-- A heartbeat arrives, when everything is answered. -/
theorem Served.recv_heartbeat (ha : Asked k taken l c.sent) (hs : Served k taken l.call.script c)
    (hend : l.call.answered = l.call.script.requests.length)
    (h : c.recv k.iroh.toStr st (.frame .heartbeat) sid now = some (c', op)) :
    c'.sent = c.sent ∧ Served k taken l.call.script c' ∧ c'.phase = c.phase := by
  have hpos : 0 < taken := by
    have := ha.answered_le_sent
    have := hs.sent_le
    have := requests_ne_nil l.call.script
    omega
  unfold Conn.recv at h
  split at h
  · rename_i hp
    exact absurd (hs.awaits hp) hpos.ne'
  · rename_i g hp
    obtain ⟨rfl, -⟩ := Prod.mk.inj (Option.some.inj h)
    refine ⟨rfl, ⟨hs.sent_le, by simp, fun _ _ => hs.ready g hp, by simp [Phase.reply?], by simp,
      hs.sent, fun g' hg' => ?_⟩, hp.symm⟩
    exact hs.group g' (by rw [hp]; exact hg')
  · cases h

/-- **A frame arrives**: a request, which the session answers, or a heartbeat. -/
theorem Lockstep.recv {rest : List Frame} (hk : k.Hold st l.call.script) (hl : Lockstep k l c)
    (hup : l.up = f :: rest)
    (h : c.recv k.iroh.toStr st (.frame f) sid now = some (c', op)) :
    Lockstep k { l with up := rest } c' ∧
      ((∃ reply, c'.phase.reply? = some reply) ∨ (f = .heartbeat ∧ c'.phase = c.phase)) := by
  obtain ⟨taken, ha, hs⟩ := hl
  obtain ⟨n, hall, hbeats⟩ := ha.up
  rw [hup] at hall
  rcases Nat.lt_or_eq_of_le ha.taken_le with hlt | heq
  · have hlen : taken < l.call.script.requests.length := hlt.trans_le ha.length_le
    have hr := List.getElem?_eq_getElem hlen
    have hlen' : taken < (l.call.script.requests.take l.call.asked).length := by
      rw [List.length_take]
      omega
    rw [List.drop_eq_getElem_cons hlen', List.getElem_take, List.map_cons, List.cons_append] at hall
    obtain ⟨rfl, rfl⟩ := List.cons.inj hall
    obtain ⟨hsent, hs', hreply⟩ := hs.recv_request hk ha hlt hr h
    refine ⟨⟨taken + 1, ?_, hs'⟩, .inl hreply⟩
    rw [hsent]
    exact ⟨ha.answered_le, ha.asked_le, ha.length_le, hlt, ⟨n, rfl, hbeats⟩, ha.read, ha.whole,
      ha.outcome⟩
  · rw [heq, List.drop_eq_nil_of_le (List.length_take_le _ _), List.map_nil,
      List.nil_append] at hall
    cases n with
    | zero => cases hall
    | succ n =>
      rw [List.replicate_succ] at hall
      obtain ⟨rfl, rfl⟩ := List.cons.inj hall
      obtain ⟨hsent, hs', hphase⟩ := hs.recv_heartbeat ha (hbeats n.succ_pos) h
      refine ⟨⟨taken, ?_, hs'⟩, .inr ⟨rfl, hphase⟩⟩
      rw [hsent]
      refine ⟨ha.answered_le, ha.asked_le, ha.length_le, ha.taken_le,
        ⟨n, ?_, fun _ => hbeats n.succ_pos⟩, ha.read, ha.whole, ha.outcome⟩
      rw [heq, List.drop_eq_nil_of_le (List.length_take_le _ _)]
      rfl

/-- The connection ends. -/
theorem Lockstep.gone {input : Incoming} (hl : Lockstep k l c) (hinput : ∀ f, input ≠ .frame f)
    (h : c.recv k.iroh.toStr st input sid now = some (c', op)) : Lockstep k l c' := by
  obtain ⟨taken, ha, hs⟩ := hl
  obtain ⟨-, hsent⟩ := recv_remote h
  rw [← hsent] at ha
  refine ⟨taken, ha, ?_⟩
  unfold Conn.recv at h
  split at h
  · obtain ⟨rfl, -⟩ := Prod.mk.inj (Option.some.inj h)
    cases input with
    | frame f => exact absurd rfl (hinput f)
    | _ => exact hs.leave rfl (.inr ⟨_, _, rfl⟩) (by simp [Phase.joined])
  · rename_i g hp
    obtain ⟨rfl, -⟩ := Prod.mk.inj (Option.some.inj h)
    cases input with
    | frame f => exact absurd rfl (hinput f)
    | _ => exact hs.leave rfl (.inl ⟨_, _, rfl⟩) (by simp [Phase.joined, hp])
  · cases h

theorem Lockstep.cleanup {scanned : List String} (hl : Lockstep k l c)
    (h : c.cleanup st scanned = some (c', op)) : Lockstep k l c' := by
  obtain ⟨taken, ha, hs⟩ := hl
  obtain ⟨g, d, d', hp, -, -, hsent, hp'⟩ := cleanup_cases h
  rw [← hsent] at ha
  refine ⟨taken, ha, hs.leave hsent ?_ ?_⟩
  · rcases hp' with ⟨d', -, hp'⟩ | ⟨-, hp'⟩
    · exact .inl ⟨g, d', hp'⟩
    · exact .inr ⟨_, _, hp'⟩
  · rcases hp' with ⟨d', -, hp'⟩ | ⟨-, hp'⟩ <;> simp [hp, hp', Phase.joined]

/-- What a call knows of its replies does not change when there is another one. -/
theorem Asked.more (ha : Asked k taken l sent) (reply : Frame) :
    Asked k taken l (sent ++ [reply]) := by
  refine ⟨ha.answered_le, ha.asked_le, ha.length_le, ha.taken_le, ha.up, fun j hj => ?_, ha.whole,
    ha.outcome⟩
  obtain ⟨r, f, id, hr, hf, hjudge⟩ := ha.read j hj
  exact ⟨r, f, id, hr, by rw [List.getElem?_append_left (List.getElem?_eq_some_iff.1 hf).1, hf],
    hjudge⟩

/-- The reply that was written is the next one. -/
theorem sent_append {reply : Frame} (hs : Served k taken s c)
    (hreply : c.phase.reply? = some reply) (j : ℕ) (f : Frame)
    (hf : (c.sent ++ [reply])[j]? = some f) : ∃ r, s.requests[j]? = some r ∧ Answers k r f := by
  rcases Nat.lt_trichotomy j c.sent.length with hlt | rfl | hgt
  · rw [List.getElem?_append_left hlt] at hf
    exact hs.sent j f hf
  · rw [List.getElem?_concat_length] at hf
    obtain rfl := Option.some.inj hf
    exact (hs.replying reply hreply).2
  · rw [List.getElem?_eq_none (by simp; omega)] at hf
    cases hf

/-- **A reply is written**, or the write fails. -/
theorem Lockstep.wrote {ok : Bool} (hl : Lockstep k l c) (h : c.wrote ok = some c') :
    Lockstep k l c' := by
  obtain ⟨taken, ha, hs⟩ := hl
  refine ⟨taken, ?_, ?_⟩
  · rcases (wrote_cases h).2 with ⟨-, -, hsent | hsent⟩ | ⟨_, _, _, -, -, hsent | hsent⟩ |
        ⟨_, _, -, -, -, hsent⟩ <;> rw [hsent]
    · exact ha
    · exact ha.more _
    · exact ha
    · exact ha.more _
    · exact ha
  unfold Conn.wrote at h
  split at h
  · rename_i hp
    have hreply : c.phase.reply? = some unknownGroup := by rw [hp]; rfl
    obtain rfl := Option.some.inj h
    cases ok with
    | false => exact hs.leave rfl (.inr ⟨_, _, rfl⟩) (by simp [Phase.joined])
    | true =>
      refine ⟨?_, by simp, by simp, by simp [Phase.reply?], by simp, sent_append hs hreply,
        by simp [Phase.joined]⟩
      simp [(hs.replying _ hreply).1]
  · rename_i g reply p hp
    have hreply : c.phase.reply? = some reply := by rw [hp]; rfl
    have hjoined : c.phase.joined = some g := by rw [hp]; rfl
    obtain rfl := Option.some.inj h
    cases ok with
    | true =>
      refine ⟨?_, by simp, by simp, by simp [Phase.reply?], by simp, sent_append hs hreply, ?_⟩
      · simp [(hs.replying _ hreply).1]
      · exact fun g' hg' => hs.group g' (hjoined.trans hg')
    | false =>
      cases p with
      | true => exact hs.leave rfl (.inr ⟨_, _, rfl⟩) (fun g' hg' => hjoined.trans hg')
      | false =>
        exact ⟨hs.sent_le, by simp, fun _ _ => hs.propagates g reply hp, by simp [Phase.reply?],
          by simp, hs.sent, fun g' hg' => hs.group g' (hjoined.trans hg')⟩
  · cases h

/-- **Every move keeps a call and its session in lockstep.** -/
theorem lockstep_move {e : Event} {l' : Link} (hk : k.Hold st l.call.script) (hl : Lockstep k l c)
    (hm : LinkMove k.iroh st l c e l' c') :
    Lockstep k l' c' ∧ l'.call.script = l.call.script := by
  obtain ⟨taken, ha, hs⟩ := hl
  cases hm with
  | ask step =>
    have hscript : ∀ {f call}, l.call.ask = some (f, call) → call.script = l.call.script := by
      intro f call h
      obtain ⟨-, -, r, -, -, rfl⟩ := Call.ask_cases h
      rfl
    refine ⟨⟨taken, ha.ask hs.sent_le step, ?_⟩, hscript step⟩
    rw [hscript step]
    exact hs
  | read reply step =>
    obtain ⟨ha', hscript⟩ := ha.read_reply hs reply step
    refine ⟨⟨taken, ha', ?_⟩, hscript⟩
    rw [hscript]
    exact hs
  | fail _ step =>
    obtain ⟨-, rfl⟩ := Call.fail_cases step
    exact ⟨⟨taken, ha.fail step, hs⟩, rfl⟩
  | beat registered => exact ⟨⟨taken, ha.beat registered, hs⟩, rfl⟩
  | lose =>
    exact ⟨⟨taken, ⟨ha.answered_le, ha.asked_le, ha.length_le, ha.taken_le, ha.up, ha.read,
      ha.whole, ha.outcome⟩, hs⟩, rfl⟩
  | recv up step => exact ⟨(Lockstep.recv hk ⟨taken, ha, hs⟩ up step).1, rfl⟩
  | gone input_ne _ step => exact ⟨Lockstep.gone ⟨taken, ha, hs⟩ input_ne step, rfl⟩
  | wrote step => exact ⟨Lockstep.wrote ⟨taken, ha, hs⟩ step, rfl⟩
  | cleanup step => exact ⟨Lockstep.cleanup ⟨taken, ha, hs⟩ step, rfl⟩

/-- A call at its beginning, on a new connection. -/
theorem lockstep_start (k : Facts) (s : Script) (remote : EndpointId) :
    Lockstep k ⟨.start s, [], false⟩ ⟨remote, .awaitHello, []⟩ := by
  refine ⟨0, ⟨le_rfl, Nat.zero_le _, Nat.zero_le _, le_rfl, ⟨0, rfl, fun h => by cases h⟩,
    (fun j hj => by cases hj), ?_, ?_⟩, ⟨le_rfl, fun _ => rfl, ?_, ?_, ?_, ?_, ?_⟩⟩
  · intro p hp
    cases hp
  · intro res hres
    cases hres
  · intro g hp
    cases hp
  · intro reply hp
    cases hp
  · intro g reply hp
    cases hp
  · intro j f hf
    cases hf
  · intro g hg
    cases hg

/-- A call that has registered has a confirmation for each of its services. -/
theorem Lockstep.registerOk (hl : Lockstep k l c)
    (hres : l.call.result = some (.ok none)) {svc : String} {isStatic : Bool}
    (hmem : .register svc isStatic ∈ l.call.script.body) :
    .registerOk ⟨svc⟩ ∈ c.sent := by
  obtain ⟨taken, ha, hs⟩ := hl
  obtain ⟨j, hj, hr⟩ := List.getElem_of_mem hmem
  have hreq : l.call.script.requests[j + 1]? = some (.register svc isStatic) := by
    rw [Script.requests, List.getElem?_cons_succ, List.getElem?_eq_getElem hj, hr]
  have hlt : j + 1 < l.call.answered := by
    rw [ha.whole none hres]
    exact (List.getElem?_eq_some_iff.1 hreq).1
  obtain ⟨r, f, id, hr, hf, hjudge⟩ := ha.read (j + 1) hlt
  obtain ⟨r', hr', hans⟩ := hs.sent (j + 1) f hf
  cases hr.symm.trans hr'
  cases hr.symm.trans hreq
  cases hans with
  | registered short => exact List.mem_of_getElem? hf
  | badName long => cases hjudge

end Sessions

/-! ## More facts -/

section Mono

variable {k' : Facts} {s : Script}

/-- More is known of what the server has found. -/
structure Facts.Le (k k' : Facts) : Prop where
  iroh : k'.iroh = k.iroh
  auth : k'.auth = k.auth
  found : ∀ svc p, k.found svc p → k'.found svc p

theorem Answers.mono (hle : k.Le k') {r : Request} (h : Answers k r f) : Answers k' r f := by
  cases h with
  | hello known => exact .hello (hle.auth ▸ known)
  | unknown unknown => exact .unknown (hle.auth ▸ unknown)
  | registered short => exact .registered short
  | badName long => exact .badName long
  | subscribed found => exact hle.iroh ▸ .subscribed (hle.found _ _ found)

theorem Outcome.mono (hle : k.Le k') {res : Except CallError (Option EndpointId)}
    (h : Outcome k s res) : Outcome k' s res := by
  rcases res with e | p
  · cases h with
    | lost => exact .lost
    | unknown unknown => exact .unknown (hle.auth ▸ unknown)
    | badName mem long => exact .badName mem long
    | noProvider mem found => exact .noProvider mem (hle.found _ _ found)
    | invalidId mem found invalid =>
      rw [← hle.iroh] at invalid ⊢
      exact .invalidId mem (hle.found _ _ found) invalid
  cases p with
  | none => exact ⟨hle.auth ▸ h.1, h.2⟩
  | some p =>
    obtain ⟨hknown, svc, q, hmem, hfound, hparse⟩ := h
    exact ⟨hle.auth ▸ hknown, svc, q, hmem, hle.found _ _ hfound, hle.iroh ▸ hparse⟩

theorem Lockstep.mono (hle : k.Le k') (h : Lockstep k l c) : Lockstep k' l c := by
  obtain ⟨taken, ha, hs⟩ := h
  refine ⟨taken, ⟨ha.answered_le, ha.asked_le, ha.length_le, ha.taken_le, ha.up, ha.read, ha.whole,
    fun res hres => (ha.outcome res hres).mono hle⟩, ⟨hs.sent_le, hs.awaits, hs.ready, ?_,
    hs.propagates, ?_, fun g hg => hle.auth ▸ hs.group g hg⟩⟩
  · intro reply hreply
    obtain ⟨hlen, r, hr, hans⟩ := hs.replying reply hreply
    exact ⟨hlen, r, hr, hans.mono hle⟩
  · intro j f hf
    obtain ⟨r, hr, hans⟩ := hs.sent j f hf
    exact ⟨r, hr, hans.mono hle⟩

end Mono

end Lockstep

/-! ## Runs -/

section Runs

variable {iroh : Iroh} {st : ServerState} {w w' : World} {e : Event} {es : List Event} {i : ℕ}
  {l : Link}

/-- Nothing is said of what is found. -/
abbrev openFacts (iroh : Iroh) (st : ServerState) : Facts :=
  ⟨iroh, st.authenticate, fun _ _ => True⟩

/-- What was true at some moment of a run, while the connection was there. -/
def seen (iroh : Iroh) (st : ServerState) (es : List Event) (i : ℕ) (s : Script) : Facts where
  iroh := iroh
  auth := st.authenticate
  found := fun svc p => ∃ es₀ w₀ l₀ g, es₀ <+: es ∧ Run (WorldSteps iroh) (.init st) es₀ w₀ ∧
    w₀.links i = some l₀ ∧ l₀.call.script = s ∧
    st.authenticate s.intro.groupToken = some g ∧ w₀.server.state.lookupService g svc = p

/-- The groups are those of the configuration. -/
theorem authenticate_step (h : WorldSteps iroh w e w') :
    w'.server.state.authenticate = w.server.state.authenticate := by
  funext token
  rcases server_step h with ⟨e', -, hs⟩ | ⟨-, hsame⟩
  · rw [ServerState.authenticate, ServerState.authenticate, tokens_step hs]
  · rw [hsame]

/-- **In every run**, every call is in lockstep with its session. -/
theorem lockstep_run (hrun : Run (WorldSteps iroh) (.init st) es w) :
    w.server.state.authenticate = st.authenticate ∧
      ∀ i l, w.links i = some l → ∃ c, w.server.conns i = some c ∧
        Lockstep (seen iroh st es i l.call.script) l c := by
  refine Run.snoc_induction (motive := fun es w => w.server.state.authenticate = st.authenticate ∧
    ∀ i l, w.links i = some l → ∃ c, w.server.conns i = some c ∧
      Lockstep (seen iroh st es i l.call.script) l c) ?_ ?_ hrun
  · refine ⟨rfl, fun i l hl => ?_⟩
    cases hl
  · intro es w e w' hrun ih hstep
    obtain ⟨hauth, hlock⟩ := ih
    refine ⟨(authenticate_step hstep).trans hauth, fun i l' hl' => ?_⟩
    rcases links_of_step hstep hl' with ⟨remote, script, -, rfl, hc⟩ | ⟨l, hl⟩
    · exact ⟨_, hc, lockstep_start _ _ _⟩
    obtain ⟨c, hc, hcall⟩ := hlock i l hl
    obtain ⟨l'', c', hl'', hc', hmove⟩ := link_step hstep hl hc
    cases hl'.symm.trans hl''
    -- What the session looks up now is seen from now on.
    have hle : (seen iroh st es i l.call.script).Le (seen iroh st (es ++ [e]) i l.call.script) := by
      refine ⟨rfl, rfl, fun svc p hfound => ?_⟩
      obtain ⟨es₀, w₀, l₀, g, hpre, hrest⟩ := hfound
      exact ⟨es₀, w₀, l₀, g, hpre.trans (List.prefix_append _ _), hrest⟩
    have hhold : (seen iroh st (es ++ [e]) i l.call.script).Hold w.server.state l.call.script := by
      refine ⟨congrFun hauth _, fun g svc hg _ => ?_⟩
      exact ⟨es, w, l, g, List.prefix_append _ _, hrun, hl, rfl, hg, rfl⟩
    rcases hmove with ⟨-, rfl, rfl⟩ | ⟨-, hmove⟩
    · exact ⟨c', hc', hcall.mono hle⟩
    · obtain ⟨hcall', hscript⟩ := lockstep_move hhold (hcall.mono hle) hmove
      exact ⟨c', hc', hscript ▸ hcall'⟩

end Runs

end MeshlyCore.Mesh
