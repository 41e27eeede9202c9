import MeshlyCore.Client.Call
import MeshlyCore.Control.Reply
import MeshlyCore.Control.Server

/-!
# Calls and the server

Any number of calls, each on a control connection of its own, next to any number of connections of
which nothing is known. What the client sends on a connection arrives in order, as long as the
connection is there; the reply a call reads next is the one the server has written as the reply to
its request, since it reads all replies and sends one request at a time. A connection may be lost at
any time, and the end of `run_session` closes it. On a connection that has registered its services
the client sends heartbeats.
-/

namespace MeshlyCore.Mesh

open Protocol Registry Machine Client Control

/-- The client's side of a connection: its call, what was sent and has not arrived, and whether the
connection is lost. -/
structure Link where
  call : Call
  up : List Frame
  down : Bool

structure World where
  server : Server
  links : ℕ → Option Link

inductive Event where
  | dial (i : ℕ) (remote : EndpointId) (script : Script)
  | ask (i : ℕ)
  | read (i : ℕ)
  | fail (i : ℕ) (text : String)
  | beat (i : ℕ)
  /-- The connection is lost, or the client drops it. -/
  | lose (i : ℕ)
  | server (e : Control.Event)

namespace World

def init (st : ServerState) : World := ⟨.init st, fun _ => none⟩

def setLink (i : ℕ) (l : Link) (w : World) : World :=
  { w with links := Function.update w.links i (some l) }

/-- The reply to request `k` of connection `i`. -/
def reply (w : World) (i k : ℕ) : Option Frame := (w.server.conns i).bind fun c => c.sent[k]?

/-- `run_session` has returned. -/
def hasEnded (w : World) (i : ℕ) : Bool :=
  match (w.server.conns i).map Conn.phase with
  | some (.ended _ _) => true
  | _ => false

/-- The links after an event of the server: what arrives was sent, and a connection ends when it is
lost. -/
def arrive (w : World) : Control.Event → Option (ℕ → Option Link)
  | .recv i input _ _ =>
      match w.links i, input with
      | none, _ => some w.links
      | some l, .frame f =>
          match l.up with
          | sent :: rest =>
              if sent = f then some (Function.update w.links i (some { l with up := rest }))
              else none
          | [] => none
      | some l, _ => if l.down then some w.links else none
  | _ => some w.links

def next (iroh : Iroh) (w : World) : Event → Option World
  | .dial i remote script =>
      (w.server.next iroh.toStr (.connect i remote)).map fun server =>
        ⟨server, Function.update w.links i (some ⟨.start script, [], false⟩)⟩
  | .ask i => (w.links i).bind fun l =>
      if l.down then none
      else l.call.ask.map fun (f, call) => w.setLink i { l with call, up := l.up ++ [f] }
  | .read i => (w.links i).bind fun l => (w.reply i l.call.answered).bind fun f =>
      (l.call.read iroh f).map fun call => w.setLink i { l with call }
  | .fail i text => (w.links i).bind fun l =>
      if l.down ∨ w.hasEnded i then (l.call.fail text).map fun call => w.setLink i { l with call }
      else none
  | .beat i => (w.links i).bind fun l =>
      if l.call.result = some (.ok none) ∧ l.down = false then
        some (w.setLink i { l with up := l.up ++ [.heartbeat] })
      else none
  | .lose i => (w.links i).map fun l => w.setLink i { l with down := true }
  | .server e => (w.arrive e).bind fun links =>
      (w.server.next iroh.toStr e).map fun server => ⟨server, links⟩

end World

abbrev WorldSteps (iroh : Iroh) : World → Event → World → Prop := stepOf (World.next iroh)

/-! ## What a step does -/

section Steps

variable {iroh : Iroh} {w w' : World} {e : Event} {i : ℕ} {l : Link} {c : Conn}

/-- What the server does in an event. -/
def Event.served : Event → Option Control.Event
  | .dial i remote _ => some (.connect i remote)
  | .server e => some e
  | _ => none

/-- What happens on one connection. -/
inductive LinkMove (iroh : Iroh) (st : ServerState) (l : Link) (c : Conn) :
    Event → Link → Conn → Prop
  | ask {i : ℕ} {f : Frame} {call : Call} (step : l.call.ask = some (f, call)) :
      LinkMove iroh st l c (.ask i) { l with call, up := l.up ++ [f] } c
  | read {i : ℕ} {f : Frame} {call : Call} (reply : c.sent[l.call.answered]? = some f)
      (step : l.call.read iroh f = some call) : LinkMove iroh st l c (.read i) { l with call } c
  | fail {i : ℕ} {text : String} {call : Call}
      (gone : l.down ∨ ∃ g res, c.phase = .ended g res) (step : l.call.fail text = some call) :
      LinkMove iroh st l c (.fail i text) { l with call } c
  | beat {i : ℕ} (registered : l.call.result = some (.ok none)) :
      LinkMove iroh st l c (.beat i) { l with up := l.up ++ [.heartbeat] } c
  | lose {i : ℕ} : LinkMove iroh st l c (.lose i) { l with down := true } c
  | recv {i : ℕ} {f : Frame} {rest : List Frame} {sid : UInt64} {now : Instant} {c' : Conn}
      {op : Op} (up : l.up = f :: rest)
      (step : c.recv iroh.toStr st (.frame f) sid now = some (c', op)) :
      LinkMove iroh st l c (.server (.recv i (.frame f) sid now)) { l with up := rest } c'
  | gone {i : ℕ} {input : Incoming} {sid : UInt64} {now : Instant} {c' : Conn} {op : Op}
      (input_ne : ∀ f, input ≠ .frame f) (down : l.down)
      (step : c.recv iroh.toStr st input sid now = some (c', op)) :
      LinkMove iroh st l c (.server (.recv i input sid now)) l c'
  | wrote {i : ℕ} {ok : Bool} {c' : Conn} (step : c.wrote ok = some c') :
      LinkMove iroh st l c (.server (.wrote i ok)) l c'
  | cleanup {i : ℕ} {scanned : List String} {c' : Conn} {op : Op}
      (step : c.cleanup st scanned = some (c', op)) :
      LinkMove iroh st l c (.server (.cleanup i scanned)) l c'

/-- The connection an event is about. -/
def Event.conn? : Event → Option ℕ
  | .dial i _ _ => some i
  | .ask i => some i
  | .read i => some i
  | .fail i _ => some i
  | .beat i => some i
  | .lose i => some i
  | .server (.connect i _) => some i
  | .server (.recv i _ _ _) => some i
  | .server (.wrote i _) => some i
  | .server (.cleanup i _) => some i
  | .server (.sweep _) => none

/-- A call begins, a client moves, or the server does. -/
theorem world_cases (h : WorldSteps iroh w e w') :
    (∃ j remote script, e = .dial j remote script ∧ w.server.conns j = none ∧
      w'.server = w.server.setConn j ⟨remote, .awaitHello, []⟩ ∧
      w'.links = Function.update w.links j (some ⟨.start script, [], false⟩)) ∨
    (∃ j lj lj', w.links j = some lj ∧ w' = w.setLink j lj' ∧ e.conn? = some j ∧
      e.served = none ∧
      ∀ c, w.server.conns j = some c → LinkMove iroh w.server.state lj c e lj' c) ∨
    (∃ e', e = .server e' ∧ w.arrive e' = some w'.links ∧
      Steps iroh.toStr w.server e' w'.server) := by
  have h' : w.next iroh e = some w' := h
  cases e with
  | dial j remote script =>
    obtain ⟨s, hs, rfl⟩ := Option.map_eq_some_iff.1 h'
    simp only [Server.next] at hs
    split_ifs at hs with hfree
    obtain rfl := Option.some.inj hs
    exact .inl ⟨j, remote, script, rfl, by simpa using hfree, rfl, rfl⟩
  | ask j =>
    obtain ⟨lj, hlj, h'⟩ := Option.bind_eq_some_iff.1 h'
    split_ifs at h'
    obtain ⟨⟨f, call⟩, hask, rfl⟩ := Option.map_eq_some_iff.1 h'
    exact .inr (.inl ⟨j, lj, _, hlj, rfl, rfl, rfl, fun _ _ => .ask hask⟩)
  | read j =>
    obtain ⟨lj, hlj, h'⟩ := Option.bind_eq_some_iff.1 h'
    obtain ⟨f, hreply, h'⟩ := Option.bind_eq_some_iff.1 h'
    obtain ⟨call, hread, rfl⟩ := Option.map_eq_some_iff.1 h'
    refine .inr (.inl ⟨j, lj, _, hlj, rfl, rfl, rfl, fun cj hcj => .read ?_ hread⟩)
    rwa [World.reply, hcj, Option.bind_some] at hreply
  | fail j text =>
    obtain ⟨lj, hlj, h'⟩ := Option.bind_eq_some_iff.1 h'
    split_ifs at h' with hgone
    obtain ⟨call, hfail, rfl⟩ := Option.map_eq_some_iff.1 h'
    refine .inr (.inl ⟨j, lj, _, hlj, rfl, rfl, rfl, fun cj hcj =>
      .fail (hgone.imp_right fun hend => ?_) hfail⟩)
    rw [World.hasEnded, hcj, Option.map_some] at hend
    split at hend
    · rename_i g res hphase
      exact ⟨g, res, Option.some.inj hphase⟩
    · cases hend
  | beat j =>
    obtain ⟨lj, hlj, h'⟩ := Option.bind_eq_some_iff.1 h'
    split_ifs at h' with hcond
    obtain rfl := Option.some.inj h'
    exact .inr (.inl ⟨j, lj, _, hlj, rfl, rfl, rfl, fun _ _ => .beat hcond.1⟩)
  | lose j =>
    obtain ⟨lj, hlj, rfl⟩ := Option.map_eq_some_iff.1 h'
    exact .inr (.inl ⟨j, lj, _, hlj, rfl, rfl, rfl, fun _ _ => .lose⟩)
  | server e' =>
    obtain ⟨links, harrive, h'⟩ := Option.bind_eq_some_iff.1 h'
    obtain ⟨s, hs, rfl⟩ := Option.map_eq_some_iff.1 h'
    exact .inr (.inr ⟨e', rfl, harrive, hs⟩)

/-- The server makes a step of its own, or none. -/
theorem server_step (h : WorldSteps iroh w e w') :
    (∃ e', e.served = some e' ∧ Steps iroh.toStr w.server e' w'.server) ∨
      (e.served = none ∧ w'.server = w.server) := by
  rcases world_cases h with ⟨j, remote, script, rfl, hfree, hserver, -⟩ |
      ⟨j, lj, lj', -, rfl, -, hserved, -⟩ | ⟨e', rfl, -, hs⟩
  · refine .inl ⟨_, rfl, ?_⟩
    rw [hserver]
    show Server.next _ _ _ = _
    simp [Server.next, hfree]
  · exact .inr ⟨hserved, rfl⟩
  · exact .inl ⟨e', rfl, hs⟩

/-- A client moves. -/
theorem setLink_move {j : ℕ} {lj lj' : Link} (hlj : w.links j = some lj) (hj : e.conn? = some j)
    (hmove : ∀ c, w.server.conns j = some c → LinkMove iroh w.server.state lj c e lj' c)
    (hl : w.links i = some l) (hc : w.server.conns i = some c) :
    ∃ l' c', (w.setLink j lj').links i = some l' ∧ (w.setLink j lj').server.conns i = some c' ∧
      ((e.conn? ≠ some i ∧ l' = l ∧ c' = c) ∨
        (e.conn? = some i ∧ LinkMove iroh w.server.state l c e l' c')) := by
  by_cases hij : i = j
  · subst hij
    rw [hl] at hlj
    obtain rfl := Option.some.inj hlj
    exact ⟨lj', c, Function.update_self .., hc, .inr ⟨hj, hmove c hc⟩⟩
  · refine ⟨l, c, (Function.update_of_ne hij ..).trans hl, hc, .inl ⟨?_, rfl, rfl⟩⟩
    rw [hj]
    exact fun heq => hij (Option.some.inj heq).symm

/-- The session of a connection moves. -/
theorem setConn_move {j : ℕ} {cj' : Conn} {server : Server} {links : ℕ → Option Link}
    (hconns : server.conns = (w.server.setConn j cj').conns) (hj : e.conn? = some j)
    (hlinks : ∀ i, i ≠ j → links i = w.links i)
    (hmove : ∀ l c, w.links j = some l → w.server.conns j = some c →
      ∃ l', links j = some l' ∧ LinkMove iroh w.server.state l c e l' cj')
    (hl : w.links i = some l) (hc : w.server.conns i = some c) :
    ∃ l' c', links i = some l' ∧ server.conns i = some c' ∧
      ((e.conn? ≠ some i ∧ l' = l ∧ c' = c) ∨
        (e.conn? = some i ∧ LinkMove iroh w.server.state l c e l' c')) := by
  rw [hconns]
  by_cases hij : i = j
  · subst hij
    obtain ⟨l', hl', hmove⟩ := hmove l c hl hc
    exact ⟨l', cj', hl', conns_setConn_self i cj', .inr ⟨hj, hmove⟩⟩
  · refine ⟨l, c, (hlinks i hij).trans hl, ?_, .inl ⟨?_, rfl, rfl⟩⟩
    · rw [conns_setConn_of_ne hij, hc]
    · rw [hj]
      exact fun heq => hij (Option.some.inj heq).symm

/-- What arrives on a connection was sent on it, or the connection is lost. -/
theorem arrive_cases {e : Control.Event} {links : ℕ → Option Link} (h : w.arrive e = some links) :
    (∃ i f sid now l rest, e = .recv i (.frame f) sid now ∧ w.links i = some l ∧
      l.up = f :: rest ∧ links = Function.update w.links i (some { l with up := rest })) ∨
    (links = w.links ∧ ∀ i input sid now l, e = .recv i input sid now → w.links i = some l →
      l.down ∧ ∀ f, input ≠ .frame f) := by
  unfold World.arrive at h
  split at h
  · split at h
    · rename_i hnone
      obtain rfl := Option.some.inj h
      refine .inr ⟨rfl, fun i input sid now l he hl => ?_⟩
      cases he
      rw [hnone] at hl
      cases hl
    · rename_i l f hl
      split at h
      · rename_i sent rest hup
        split_ifs at h with hsent
        obtain rfl := Option.some.inj h
        exact .inl ⟨_, f, _, _, l, rest, rfl, hl, hsent ▸ hup, rfl⟩
      · cases h
    · rename_i l hl hframe
      split_ifs at h with hdown
      obtain rfl := Option.some.inj h
      refine .inr ⟨rfl, fun i input sid now l' he hl' => ?_⟩
      cases he
      rw [hl] at hl'
      obtain rfl := Option.some.inj hl'
      exact ⟨hdown, hframe⟩
  · rename_i hrecv
    obtain rfl := Option.some.inj h
    exact .inr ⟨rfl, fun i input sid now l he _ => absurd he (hrecv i input sid now)⟩

/-- **A step is about one connection**, or about none. -/
theorem link_step (h : WorldSteps iroh w e w') (hl : w.links i = some l)
    (hc : w.server.conns i = some c) :
    ∃ l' c', w'.links i = some l' ∧ w'.server.conns i = some c' ∧
      ((e.conn? ≠ some i ∧ l' = l ∧ c' = c) ∨
        (e.conn? = some i ∧ LinkMove iroh w.server.state l c e l' c')) := by
  rcases world_cases h with ⟨j, remote, script, rfl, hfree, hserver, hlinks⟩ |
      ⟨j, lj, lj', hlj, rfl, hj, -, hmove⟩ | ⟨e', rfl, harrive, hs⟩
  · have hij : i ≠ j := by
      rintro rfl
      rw [hc] at hfree
      cases hfree
    refine ⟨l, c, ?_, ?_, .inl ⟨fun heq => hij (Option.some.inj heq).symm, rfl, rfl⟩⟩
    · rw [hlinks, Function.update_of_ne hij, hl]
    · rw [hserver, conns_setConn_of_ne hij, hc]
  · exact setLink_move hlj hj hmove hl hc
  rcases next_cases hs with ⟨j, remote, rfl, hfree, hserver⟩ |
      ⟨j, input, sid, now, d, d', op, rfl, hj, hd, hserver⟩ | ⟨j, ok, d, d', rfl, hj, hd, hserver⟩ |
      ⟨j, scanned, d, d', op, rfl, hj, hd, hserver⟩ | ⟨input, _, op, rfl, -, hserver⟩
  · have hlinks := (Option.some.inj harrive).symm
    refine setConn_move (by rw [hserver]) rfl (fun _ _ => by rw [hlinks]) (fun _ cj _ hcj => ?_)
      hl hc
    rw [hfree] at hcj
    cases hcj
  · rcases arrive_cases harrive with ⟨_, f, _, _, lj, rest, he, hlj, hup, hlinks⟩ | ⟨hlinks, hgone⟩
    · cases he
      refine setConn_move (by rw [hserver]) rfl
        (fun _ hne => by rw [hlinks, Function.update_of_ne hne])
        (fun l₀ c₀ hl₀ hc₀ => ⟨_, by rw [hlinks, Function.update_self], ?_⟩) hl hc
      cases hlj.symm.trans hl₀
      cases hj.symm.trans hc₀
      exact .recv hup hd
    · refine setConn_move (by rw [hserver]) rfl (fun _ _ => by rw [hlinks])
        (fun l₀ c₀ hl₀ hc₀ => ⟨l₀, hlinks ▸ hl₀, ?_⟩) hl hc
      cases hj.symm.trans hc₀
      obtain ⟨hdown, hframe⟩ := hgone _ _ _ _ _ rfl hl₀
      exact .gone hframe hdown hd
  · have hlinks := (Option.some.inj harrive).symm
    refine setConn_move (by rw [hserver]) rfl (fun _ _ => by rw [hlinks])
      (fun l₀ c₀ hl₀ hc₀ => ⟨l₀, hlinks ▸ hl₀, ?_⟩) hl hc
    cases hj.symm.trans hc₀
    exact .wrote hd
  · have hlinks := (Option.some.inj harrive).symm
    refine setConn_move (by rw [hserver]) rfl (fun _ _ => by rw [hlinks])
      (fun l₀ c₀ hl₀ hc₀ => ⟨l₀, hlinks ▸ hl₀, ?_⟩) hl hc
    cases hj.symm.trans hc₀
    exact .cleanup hd
  · refine ⟨l, c, ?_, ?_, .inl ⟨by simp [Event.conn?], rfl, rfl⟩⟩
    · rw [← Option.some.inj harrive, hl]
    · rw [hserver, hc]

/-- Where a link comes from: it is new, with its connection, or it was there. -/
theorem links_of_step (h : WorldSteps iroh w e w') (hl : w'.links i = some l) :
    (∃ remote script, e = .dial i remote script ∧ l = ⟨.start script, [], false⟩ ∧
      w'.server.conns i = some ⟨remote, .awaitHello, []⟩) ∨ ∃ l₀, w.links i = some l₀ := by
  rcases world_cases h with ⟨j, remote, script, rfl, -, hserver, hlinks⟩ |
      ⟨j, lj, lj', hlj, rfl, -⟩ | ⟨e', rfl, harrive, -⟩
  · rw [hlinks] at hl
    rcases of_update_eq_some hl with ⟨rfl, rfl⟩ | ⟨-, hl⟩
    · exact .inl ⟨remote, script, rfl, rfl, by rw [hserver, conns_setConn_self]⟩
    · exact .inr ⟨l, hl⟩
  · rcases of_update_eq_some hl with ⟨rfl, -⟩ | ⟨-, hl⟩
    · exact .inr ⟨lj, hlj⟩
    · exact .inr ⟨l, hl⟩
  · rcases arrive_cases harrive with ⟨j, f, _, _, lj, rest, -, hlj, -, hlinks⟩ | ⟨hlinks, -⟩
    · rw [hlinks] at hl
      rcases of_update_eq_some hl with ⟨rfl, -⟩ | ⟨-, hl⟩
      · exact .inr ⟨lj, hlj⟩
      · exact .inr ⟨l, hl⟩
    · exact .inr ⟨l, hlinks ▸ hl⟩

end Steps

end MeshlyCore.Mesh
