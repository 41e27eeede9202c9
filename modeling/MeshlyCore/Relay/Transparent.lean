import MeshlyCore.Handshake.Peers
import MeshlyCore.Relay.Stream

/-!
# The relay is transparent

A consumer and a provider that talk through the relay, against the same two on one connection.
The consumer writes its opening, the bytes of `DataOpen`, and then does what it would do on a
direct connection; the provider does not know of the relay at all. What the two are is left
open: a peer is a step function over what it writes and reads.

`Conversation.direct` forgets the relay. Each step of the conversation is a step of the direct
connection or none (`direct_of_step`). The other way, a conversation whose tunnel has not failed
can come to a point where all that was written is delivered (`settle`), and there every step of
the direct connection can be taken (`step_of_direct`).

**Theorem (`relay_transparent`).** The relay delivers prefixes of what was written, and all of it
when a copy has ended well; and the handshake of `dial_relay` can succeed, from any state that
was reached, exactly when that of `dial_direct` can.
-/

namespace MeshlyCore.Relay

open Streams Machine Protocol Handshake Control
open Protocol.Frame (readFrom frameLength wanted)

/-! ## Conversations -/

structure Conversation (σ τ : Type) where
  /-- What the consumer has yet to write of its opening. -/
  opening : Bytes
  consumer : σ
  provider : τ
  stream : Stream

inductive TalkEvent (ι κ : Type) where
  | opens (n : ℕ)
  | consumer (a : PeerAct UInt8 ι)
  | provider (a : PeerAct UInt8 κ)
  | relay (e : StreamEvent)

/-- The event without the relay. The opening, and what the relay does, are quiet. -/
def TalkEvent.direct {ι κ : Type} : TalkEvent ι κ → Option (PeerAct UInt8 ι ⊕ PeerAct UInt8 κ)
  | .opens _ => none
  | .consumer a => some (.inl a)
  | .provider a => some (.inr a)
  | .relay _ => none

/-- What only the peers do. -/
def StreamEvent.isPeer : StreamEvent → Bool
  | .stream (.peerWrites _ _) => true
  | .stream (.peerReads _ _) => true
  | _ => false

section Conversation

variable {σ τ ι κ : Type} (site : Site) (consumerNext : σ → PeerAct UInt8 ι → Option σ)
  (providerNext : τ → PeerAct UInt8 κ → Option τ)

namespace Conversation

/-- A peer's action, at its end of the stream: it writes to the source of direction `d`, and reads
from the sink of the other one. -/
def act (d : Direction) (s : Stream) : PeerAct UInt8 ι → Option Stream
  | .writes xs => s.next site (.stream (.peerWrites d xs))
  | .reads xs =>
      if (s.copy.side d.other).dst.Offers xs then
        s.next site (.stream (.peerReads d.other xs.length))
      else none
  | .moves _ => some s

def next (v : Conversation σ τ) : TalkEvent ι κ → Option (Conversation σ τ)
  | .opens n =>
      if 0 < n ∧ n ≤ v.opening.length then
        (v.stream.next site (.stream (.peerWrites .request (v.opening.take n)))).map fun s =>
          { v with opening := v.opening.drop n, stream := s }
      else none
  | .consumer a =>
      if v.opening = [] then
        (consumerNext v.consumer a).bind fun c => (act site .request v.stream a).map fun s =>
          { v with consumer := c, stream := s }
      else none
  | .provider a =>
      -- The provider's session begins when the tunnel is open.
      match v.stream.phase with
      | .copying _ =>
          (providerNext v.provider a).bind fun p => (act site .reply v.stream a).map fun s =>
            { v with provider := p, stream := s }
      | _ => none
  | .relay e =>
      if e.isPeer then none else (v.stream.next site e).map fun s => { v with stream := s }

/-- The conversation without the relay, for a consumer that opens with `opening`. -/
def direct (opening : Bytes) (v : Conversation σ τ) : Direct UInt8 σ τ where
  near := v.consumer
  far := v.provider
  there :=
    ⟨(v.stream.copy.request.src.written ++ v.opening).drop opening.length,
      v.stream.copy.request.dst.read, false⟩
  back := ⟨v.stream.copy.reply.src.written, v.stream.copy.reply.dst.read, false⟩

end Conversation

abbrev TalkSteps : Conversation σ τ → TalkEvent ι κ → Conversation σ τ → Prop :=
  stepOf (Conversation.next site consumerNext providerNext)

abbrev DirectSteps :
    Direct UInt8 σ τ → PeerAct UInt8 ι ⊕ PeerAct UInt8 κ → Direct UInt8 σ τ → Prop :=
  stepOf (Direct.next consumerNext providerNext)

end Conversation

/-! ## What a step of a conversation can be -/

section Steps

variable {σ τ ι κ : Type} {site : Site} {consumerNext : σ → PeerAct UInt8 ι → Option σ}
  {providerNext : τ → PeerAct UInt8 κ → Option τ} {v v' : Conversation σ τ} {e : TalkEvent ι κ}
  {d : Direction} {s s' : Stream}

theorem act_cases {a : PeerAct UInt8 ι} (h : Conversation.act site d s a = some s') :
    (∃ xs, a = .writes xs ∧ StreamSteps site s (.stream (.peerWrites d xs)) s') ∨
    (∃ xs, a = .reads xs ∧ (s.copy.side d.other).dst.Offers xs ∧
      StreamSteps site s (.stream (.peerReads d.other xs.length)) s') ∨
    (∃ i, a = .moves i ∧ s' = s) := by
  cases a with
  | writes xs => exact .inl ⟨xs, rfl, h⟩
  | reads xs =>
    simp only [Conversation.act] at h
    split_ifs at h with hoffers
    exact .inr (.inl ⟨xs, rfl, hoffers, h⟩)
  | moves i => exact .inr (.inr ⟨i, rfl, (Option.some.inj h).symm⟩)

theorem talk_cases (h : TalkSteps site consumerNext providerNext v e v') :
    (∃ n s, e = .opens n ∧ 0 < n ∧ n ≤ v.opening.length ∧
      StreamSteps site v.stream (.stream (.peerWrites .request (v.opening.take n))) s ∧
      v' = { v with opening := v.opening.drop n, stream := s }) ∨
    (∃ a c s, e = .consumer a ∧ v.opening = [] ∧ consumerNext v.consumer a = some c ∧
      Conversation.act site .request v.stream a = some s ∧
      v' = { v with consumer := c, stream := s }) ∨
    (∃ a p s, e = .provider a ∧ (∃ t, v.stream.phase = .copying t) ∧
      providerNext v.provider a = some p ∧ Conversation.act site .reply v.stream a = some s ∧
      v' = { v with provider := p, stream := s }) ∨
    (∃ e' s, e = .relay e' ∧ e'.isPeer = false ∧ StreamSteps site v.stream e' s ∧
      v' = { v with stream := s }) := by
  have h' : v.next site consumerNext providerNext e = some v' := h
  cases e with
  | opens n =>
    simp only [Conversation.next] at h'
    split_ifs at h' with hn
    obtain ⟨s, hs, rfl⟩ := Option.map_eq_some_iff.1 h'
    exact .inl ⟨n, s, rfl, hn.1, hn.2, hs, rfl⟩
  | consumer a =>
    simp only [Conversation.next] at h'
    split_ifs at h' with hopen
    obtain ⟨c, hc, hmap⟩ := Option.bind_eq_some_iff.1 h'
    obtain ⟨s, hs, rfl⟩ := Option.map_eq_some_iff.1 hmap
    exact .inr (.inl ⟨a, c, s, rfl, hopen, hc, hs, rfl⟩)
  | provider a =>
    simp only [Conversation.next] at h'
    split at h'
    · rename_i t ht
      obtain ⟨p, hp, hmap⟩ := Option.bind_eq_some_iff.1 h'
      obtain ⟨s, hs, rfl⟩ := Option.map_eq_some_iff.1 hmap
      exact .inr (.inr (.inl ⟨a, p, s, rfl, ⟨t, ht⟩, hp, hs, rfl⟩))
    · cases h'
  | relay e' =>
    simp only [Conversation.next] at h'
    split_ifs at h' with hpeer
    obtain ⟨s, hs, rfl⟩ := Option.map_eq_some_iff.1 h'
    exact .inr (.inr (.inr ⟨e', s, rfl, by simpa using hpeer, hs, rfl⟩))

end Steps

/-! ## Forgetting the relay -/

/-- The consumer's stream is the opening, and then what the consumer writes. -/
structure Conversation.Inv {σ τ : Type} (site : Site) (opening : Bytes) (v : Conversation σ τ) :
    Prop where
  stream : v.stream.Inv site
  opens : opening <+: v.stream.copy.request.src.written ++ v.opening
  whole : v.opening ≠ [] → v.stream.copy.request.src.written ++ v.opening = opening

section Forget

variable {σ τ ι κ : Type} {site : Site} {consumerNext : σ → PeerAct UInt8 ι → Option σ}
  {providerNext : τ → PeerAct UInt8 κ → Option τ} {v v' : Conversation σ τ} {e : TalkEvent ι κ}
  {opening : Bytes}

theorem act_inv {d : Direction} {s s' : Stream} {a : PeerAct UInt8 ι}
    (h : Conversation.act site d s a = some s') (hs : s.Inv site) :
    s'.Inv site ∧ s.copy.request.src.written <+: s'.copy.request.src.written ∧
      (d = .reply → s'.copy.request.src.written = s.copy.request.src.written) := by
  obtain ⟨xs, rfl, hstep⟩ | ⟨xs, rfl, -, hstep⟩ | ⟨i, rfl, rfl⟩ := act_cases h
  · have hends : s'.copy.request.src.written = _ := (stream_ends hstep .request).1
    refine ⟨stream_inv_step hstep hs, ?_, ?_⟩
    · rw [hends]
      exact List.prefix_append _ _
    · intro hd
      subst hd
      rw [hends]
      exact List.append_nil _
  · have hends : s'.copy.request.src.written = _ := (stream_ends hstep .request).1
    have hsame : s'.copy.request.src.written = s.copy.request.src.written := by
      rw [hends]
      exact List.append_nil _
    exact ⟨stream_inv_step hstep hs, by rw [hsame], fun _ => hsame⟩
  · exact ⟨hs, List.prefix_rfl, fun _ => rfl⟩

theorem wrote_of_not_peer {e : StreamEvent} (h : e.isPeer = false) (d : Direction) :
    e.wrote d = [] ∧ e.took d = 0 := by
  cases e with
  | stream e' =>
    cases e' with
    | peerWrites d' bytes => cases h
    | peerReads d' n => cases h
    | _ => exact ⟨rfl, rfl⟩
  | _ => exact ⟨rfl, rfl⟩

theorem talk_inv_step (h : TalkSteps site consumerNext providerNext v e v')
    (hv : v.Inv site opening) : v'.Inv site opening := by
  rcases talk_cases h with ⟨n, s, -, -, -, hstep, rfl⟩ | ⟨a, c, s, -, hopen, -, hact, rfl⟩ |
      ⟨a, p, s, -, -, -, hact, rfl⟩ | ⟨e', s, -, hpeer, hstep, rfl⟩
  · have hends : s.copy.request.src.written =
        v.stream.copy.request.src.written ++ v.opening.take n := (stream_ends hstep .request).1
    have hsame : s.copy.request.src.written ++ v.opening.drop n =
        v.stream.copy.request.src.written ++ v.opening := by
      rw [hends, List.append_assoc, List.take_append_drop]
    refine ⟨stream_inv_step hstep hv.stream, ?_, fun hne => ?_⟩
    · show opening <+: s.copy.request.src.written ++ v.opening.drop n
      rw [hsame]
      exact hv.opens
    · show s.copy.request.src.written ++ v.opening.drop n = opening
      rw [hsame]
      refine hv.whole fun hnil => hne ?_
      show v.opening.drop n = []
      rw [hnil, List.drop_nil]
  · obtain ⟨hs, hgrows, -⟩ := act_inv hact hv.stream
    refine ⟨hs, ?_, fun hne => absurd hopen hne⟩
    have hopens := hv.opens
    rw [hopen, List.append_nil] at hopens
    show opening <+: s.copy.request.src.written ++ v.opening
    rw [hopen, List.append_nil]
    exact hopens.trans hgrows
  · obtain ⟨hs, -, hsame⟩ := act_inv hact hv.stream
    refine ⟨hs, ?_, fun hne => ?_⟩
    · show opening <+: s.copy.request.src.written ++ v.opening
      rw [hsame rfl]
      exact hv.opens
    · show s.copy.request.src.written ++ v.opening = opening
      rw [hsame rfl]
      exact hv.whole hne
  · have hsame : s.copy.request.src.written = v.stream.copy.request.src.written := by
      have hends : s.copy.request.src.written = _ := (stream_ends hstep .request).1
      rw [hends, (wrote_of_not_peer hpeer .request).1]
      exact List.append_nil _
    refine ⟨stream_inv_step hstep hv.stream, ?_, fun hne => ?_⟩
    · show opening <+: s.copy.request.src.written ++ v.opening
      rw [hsame]
      exact hv.opens
    · show s.copy.request.src.written ++ v.opening = opening
      rw [hsame]
      exact hv.whole hne

/-- What a pipe offers, a pipe with more in it offers. -/
theorem offers_of_prefix {p q : Pipe UInt8} {xs : Bytes} (h : p.Offers xs)
    (hwritten : p.written <+: q.written) (hread : p.read = q.read) : q.Offers xs := by
  show xs <+: q.written.drop q.read
  rw [← hread]
  exact List.IsPrefix.trans h (hwritten.drop _)

/-- A step of the stream, without the relay: the far ends are what the peers make of them. -/
theorem direct_stream {s : Stream} {e : StreamEvent} (h : StreamSteps site v.stream e s)
    (rest : Bytes) (c : σ) (p : τ) :
    Conversation.direct opening ⟨rest, c, p, s⟩ =
      ⟨c, p,
        ⟨(v.stream.copy.request.src.written ++ e.wrote .request ++ rest).drop opening.length,
          v.stream.copy.request.dst.read + e.took .request, false⟩,
        ⟨v.stream.copy.reply.src.written ++ e.wrote .reply,
          v.stream.copy.reply.dst.read + e.took .reply, false⟩⟩ := by
  obtain ⟨hreq, hreqr⟩ := stream_ends h .request
  obtain ⟨hrep, hrepr⟩ := stream_ends h .reply
  simp only [Copying.side] at hreq hreqr hrep hrepr
  simp only [Conversation.direct, hreq, hreqr, hrep, hrepr]

/-- A quiet step is no step of the direct connection. -/
theorem direct_quiet (h : TalkSteps site consumerNext providerNext v e v')
    (hquiet : e.direct = none) : v'.direct opening = v.direct opening := by
  rcases talk_cases h with ⟨n, s, -, -, -, hstep, rfl⟩ | ⟨a, c, s, rfl, -⟩ | ⟨a, p, s, rfl, -⟩ |
      ⟨e', s, -, hpeer, hstep, rfl⟩
  · rw [direct_stream hstep, Conversation.direct, List.append_assoc]
    simp [StreamEvent.wrote, StreamEvent.took, CopyEvent.wrote, CopyEvent.took]
  · cases hquiet
  · cases hquiet
  · rw [direct_stream hstep, (wrote_of_not_peer hpeer _).1, (wrote_of_not_peer hpeer _).1,
      (wrote_of_not_peer hpeer _).2, (wrote_of_not_peer hpeer _).2, Conversation.direct]
    simp

variable {f : Frame} (hframe : readFrom site.json ⟨opening, none⟩ = .ok (f, ⟨[], none⟩))

include hframe

/-- The frame the relay has taken is the opening. -/
theorem opening_taken {t : Tunnel} (hv : v.Inv site opening) {k : ℕ}
    (hk : k ≤ v.stream.copy.request.src.written.length)
    (htook : site.Took t (v.stream.copy.request.src.written.take k)) :
    v.stream.copy.request.src.written.take k = opening ∧ k = opening.length ∧
      site.handler.acceptStream site.iroh site.state site.seen site.remote (.ok f) = .ok t := by
  obtain ⟨f', hread, hf'⟩ := htook
  have hacc : v.stream.copy.request.src.written.take k = opening :=
    Protocol.Frame.readFrom_unique hread hframe
      ((List.take_prefix _ _).trans (List.prefix_append _ _)) hv.opens
  refine ⟨hacc, ?_, ?_⟩
  · rw [← hacc, List.length_take, min_eq_left hk]
  · rw [hacc, hframe] at hread
    obtain rfl : f = f' := by simpa using hread
    exact hf'

theorem carries_opening {t : Tunnel} (hv : v.Inv site opening)
    (ht : v.stream.phase = .copying t) : SideCarries opening.length v.stream.copy.request := by
  have htaken := hv.stream.taken
  rw [ht] at htaken
  obtain ⟨⟨k, htook, hcarries⟩, -⟩ := htaken
  obtain ⟨-, rfl, -⟩ :=
    opening_taken hframe hv (hcarries.skip_le.trans hcarries.read_le) htook
  exact hcarries

/-- **A step of a peer** through the relay is its step on the direct connection. -/
theorem direct_of_step {a : PeerAct UInt8 ι ⊕ PeerAct UInt8 κ}
    (h : TalkSteps site consumerNext providerNext v e v') (ha : e.direct = some a)
    (hv : v.Inv site opening) :
    DirectSteps consumerNext providerNext (v.direct opening) a (v'.direct opening) := by
  unfold DirectSteps stepOf
  rcases talk_cases h with ⟨n, s, rfl, -⟩ | ⟨b, c, s, rfl, hopen, hc, hact, rfl⟩ |
      ⟨b, p, s, rfl, ⟨t, ht⟩, hp, hact, rfl⟩ | ⟨e', s, rfl, -⟩
  · cases ha
  · obtain rfl := Option.some.inj ha
    have hlen : opening.length ≤ v.stream.copy.request.src.written.length := by
      have := hv.opens.length_le
      rwa [hopen, List.append_nil] at this
    obtain ⟨xs, rfl, hstep⟩ | ⟨xs, rfl, hoffers, hstep⟩ | ⟨i, rfl, rfl⟩ := act_cases hact
    · rw [direct_stream hstep]
      simp [Direct.next, Conversation.direct, hc, Pipe.write, hopen, StreamEvent.wrote,
        StreamEvent.took, CopyEvent.wrote, CopyEvent.took, List.drop_append_of_le_length hlen]
    · have hback : (v.direct opening).back.Offers xs :=
        offers_of_prefix hoffers hv.stream.reply.written_prefix rfl
      rw [direct_stream hstep,
        Direct.next_near_reads (show consumerNext (v.direct opening).near _ = some c from hc) hback]
      simp [Conversation.direct, Pipe.take, StreamEvent.wrote, StreamEvent.took, CopyEvent.wrote,
        CopyEvent.took, Direction.other]
    · simp [Direct.next, Conversation.direct, hc]
  · obtain rfl := Option.some.inj ha
    obtain ⟨xs, rfl, hstep⟩ | ⟨xs, rfl, hoffers, hstep⟩ | ⟨i, rfl, rfl⟩ := act_cases hact
    · rw [direct_stream hstep]
      simp [Direct.next, Conversation.direct, hp, Pipe.write, StreamEvent.wrote,
        StreamEvent.took, CopyEvent.wrote, CopyEvent.took]
    · have hcarries := carries_opening hframe hv ht
      have hthere : (v.direct opening).there.Offers xs := by
        refine offers_of_prefix hoffers ?_ rfl
        exact hcarries.written_prefix.trans ((List.prefix_append _ _).drop _)
      rw [direct_stream hstep,
        Direct.next_far_reads (show providerNext (v.direct opening).far _ = some p from hp) hthere]
      simp [Conversation.direct, Pipe.take, StreamEvent.wrote, StreamEvent.took, CopyEvent.wrote,
        CopyEvent.took, Direction.other]
    · simp [Direct.next, Conversation.direct, hp]
  · cases ha

end Forget

/-! ## Catching up -/

/-- Both directions are open, and their loops run. -/
structure Copying.Live (c : Copying) : Prop where
  loop : ∀ d, ∃ held g, (c.side d).loop = .running held g false
  source : ∀ d, (c.side d).src.finished = false

theorem Copying.Live.of_sides {c c' : Copying} (hc : c.Live)
    (h : ∀ d, (c'.side d).loop = (c.side d).loop ∧
      (c'.side d).src.finished = (c.side d).src.finished) : c'.Live where
  loop := fun d => by
    rw [(h d).1]
    exact hc.loop d
  source := fun d => by
    rw [(h d).2]
    exact hc.source d

/-- The stream has not failed, and nobody is done. -/
structure Stream.Live (s : Stream) : Prop where
  copy : s.copy.Live
  phase : (∃ acc, s.phase = .reading acc) ∨ (∃ t, s.phase = .admitted t) ∨
    ∃ t, s.phase = .copying t

/-- The tunnel is open, and all that was written is delivered. -/
structure Conversation.Settled {σ τ : Type} (v : Conversation σ τ) : Prop where
  opening : v.opening = []
  phase : ∃ t, v.stream.phase = .copying t
  loop : ∀ d, ∃ g, (v.stream.copy.side d).loop = .running [] g false
  pending : ∀ d, (v.stream.copy.side d).src.pending = []
  source : ∀ d, (v.stream.copy.side d).src.finished = false

section Settle

variable {σ τ ι κ : Type} {site : Site} {consumerNext : σ → PeerAct UInt8 ι → Option σ}
  {providerNext : τ → PeerAct UInt8 κ → Option τ} {v v' : Conversation σ τ} {opening : Bytes}

/-- The consumer's doings are the same in every phase of a stream. -/
theorem next_of_isConsumer {s : Stream} {e : CopyEvent} {c : Copying} (hcons : e.isConsumer)
    (h : s.copy.next false e = some c) : s.next site (.stream e) = some { s with copy := c } := by
  have hany : ∀ b, s.copy.next b e = s.copy.next false e := by
    intro b
    cases e <;> first | rfl | cases hcons
  unfold Stream.next
  cases s.phase with
  | copying t => simp only [hany, h, Option.map_some]
  | _ => simp only [hcons, if_true, h, Option.map_some]

/-- A quiet run. -/
def Quietly (site : Site) (consumerNext : σ → PeerAct UInt8 ι → Option σ)
    (providerNext : τ → PeerAct UInt8 κ → Option τ) (v v' : Conversation σ τ) : Prop :=
  ∃ es, Run (TalkSteps site consumerNext providerNext) v es v' ∧ ∀ e ∈ es, e.direct = none

theorem Quietly.refl (v : Conversation σ τ) : Quietly site consumerNext providerNext v v :=
  ⟨[], .nil v, by simp⟩

theorem Quietly.trans {v₁ v₂ v₃ : Conversation σ τ}
    (h₁ : Quietly site consumerNext providerNext v₁ v₂)
    (h₂ : Quietly site consumerNext providerNext v₂ v₃) :
    Quietly site consumerNext providerNext v₁ v₃ := by
  obtain ⟨es₁, hrun₁, hq₁⟩ := h₁
  obtain ⟨es₂, hrun₂, hq₂⟩ := h₂
  refine ⟨es₁ ++ es₂, hrun₁.append hrun₂, fun e he => ?_⟩
  rcases List.mem_append.1 he with he | he
  · exact hq₁ e he
  · exact hq₂ e he

/-- The relay takes a step. -/
theorem Quietly.relay {e : StreamEvent} {s : Stream} (hpeer : e.isPeer = false)
    (h : v.stream.next site e = some s) :
    Quietly site consumerNext providerNext v { v with stream := s } := by
  have hstep : v.next site consumerNext providerNext (.relay e) = some { v with stream := s } := by
    simp [Conversation.next, hpeer, h]
  exact ⟨[.relay e], .cons hstep (.nil _), by simp [TalkEvent.direct]⟩

theorem Quietly.inv (h : Quietly site consumerNext providerNext v v')
    (hv : v.Inv site opening) : v'.Inv site opening := by
  obtain ⟨es, hrun, -⟩ := h
  exact hrun.invariant (fun _ _ _ hs => talk_inv_step hs) hv

theorem Quietly.direct (h : Quietly site consumerNext providerNext v v') :
    v'.direct opening = v.direct opening := by
  obtain ⟨es, hrun, hquiet⟩ := h
  induction hrun with
  | nil v => rfl
  | cons hs _ ih =>
    rw [ih fun e he => hquiet e (List.mem_cons_of_mem _ he)]
    exact direct_quiet hs (hquiet _ List.mem_cons_self)

/-- The consumer writes the rest of its opening. -/
theorem quietly_open (hlive : v.stream.Live) :
    ∃ v', Quietly site consumerNext providerNext v v' ∧ v'.stream.Live ∧ v'.opening = [] := by
  by_cases hopen : v.opening = []
  · exact ⟨v, .refl v, hlive, hopen⟩
  · have hsrc : v.stream.copy.request.src.finished = false := hlive.copy.source .request
    have hwrite : v.stream.copy.next false (.peerWrites .request v.opening) =
        some (v.stream.copy.setSide .request { v.stream.copy.request with
          src := v.stream.copy.request.src.write v.opening }) := by
      simp [Copying.next, Copying.side, hsrc]
    have hstep : v.next site consumerNext providerNext (.opens v.opening.length) =
        some { v with
          opening := []
          stream := { v.stream with
            copy := v.stream.copy.setSide .request { v.stream.copy.request with
              src := v.stream.copy.request.src.write v.opening } } } := by
      have hpos : 0 < v.opening.length := List.length_pos_iff.2 hopen
      simp [Conversation.next, hpos, next_of_isConsumer rfl hwrite]
    refine ⟨_, ⟨_, .cons hstep (.nil _), by simp [TalkEvent.direct]⟩,
      ⟨hlive.copy.of_sides fun d => ?_, hlive.phase⟩, rfl⟩
    cases d <;> exact ⟨rfl, rfl⟩

/-- The relay copies in one direction. -/
theorem quietly_copy {t : Tunnel} {d : Direction} {side : Side} {acts : List Act}
    (h : Run (stepOf (Copy.next (Copying.mode t.initialReplyBps.isSome d)))
      (v.stream.copy.side d) acts side) (hphase : v.stream.phase = .copying t) :
    Quietly site consumerNext providerNext v
      { v with stream := { v.stream with copy := v.stream.copy.setSide d side } } := by
  induction acts generalizing v with
  | nil =>
    cases h with
    | nil =>
      have hself : v.stream.copy.setSide d (v.stream.copy.side d) = v.stream.copy := by
        cases d <;> rfl
      rw [hself]
      exact .refl v
  | cons a acts ih =>
    cases h with
    | @cons _ side₁ _ _ _ hs hrest =>
      have hstep : v.stream.next site (.stream (.copy d a)) =
          some { v.stream with copy := v.stream.copy.setSide d side₁ } := by
        have hs' : (v.stream.copy.side d).next _ a = some side₁ := hs
        simp only [Stream.next, hphase, Copying.next, hs', Option.map_some]
      have hquiet : Quietly site consumerNext providerNext v _ := .relay rfl hstep
      have hside : (v.stream.copy.setSide d side₁).side d = side₁ := side_setSide _ _ _
      have hlast := ih
        (v := { v with stream := { v.stream with copy := v.stream.copy.setSide d side₁ } })
        (by rw [hside]; exact hrest) hphase
      have hover :
          (v.stream.copy.setSide d side₁).setSide d side = v.stream.copy.setSide d side := by
        cases d <;> rfl
      dsimp only at hlast
      rw [hover] at hlast
      exact hquiet.trans hlast

/-- The relay delivers all there is in one direction, and leaves the other alone. -/
theorem quietly_deliver {t : Tunnel} (d : Direction) (hlive : v.stream.copy.Live)
    (hphase : v.stream.phase = .copying t) :
    ∃ v', Quietly site consumerNext providerNext v v' ∧ v'.stream.copy.Live ∧
      v'.opening = v.opening ∧ v'.stream.phase = .copying t ∧
      (∃ g, (v'.stream.copy.side d).loop = .running [] g false) ∧
      (v'.stream.copy.side d).src.pending = [] ∧
      v'.stream.copy.side d.other = v.stream.copy.side d.other := by
  obtain ⟨held, g, hloop⟩ := hlive.loop d
  obtain ⟨acts, side, hrun, ⟨g', hg'⟩, hpend, hfin⟩ :=
    settles (capacity_pos t.initialReplyBps.isSome d) hloop
  refine ⟨_, quietly_copy hrun hphase, ⟨fun d' => ?_, fun d' => ?_⟩, rfl, hphase, ?_, ?_, ?_⟩
  · obtain rfl | rfl := d.eq_or_other d'
    · rw [side_setSide]
      exact ⟨[], g', hg'⟩
    · rw [side_setSide_of_ne _ d.other_ne]
      exact hlive.loop _
  · obtain rfl | rfl := d.eq_or_other d'
    · rw [side_setSide, hfin]
      exact hlive.source d'
    · rw [side_setSide_of_ne _ d.other_ne]
      exact hlive.source _
  · rw [side_setSide]
    exact ⟨g', hg'⟩
  · rw [side_setSide]
    exact hpend
  · rw [side_setSide_of_ne _ d.other_ne]

variable {f : Frame} (hframe : readFrom site.json ⟨opening, none⟩ = .ok (f, ⟨[], none⟩))

include hframe

/-- What the relay has taken is the opening, or a part of it. -/
theorem part_of_opening (hv : v.Inv site opening) (hopen : v.opening = []) {acc : Bytes}
    (hphase : v.stream.phase = .reading acc) :
    acc = opening ∨ (acc <+: opening ∧ acc.length < opening.length) := by
  have htaken := hv.stream.taken
  rw [hphase] at htaken
  obtain ⟨-, hacc, hwithin⟩ := htaken
  have hopens := hv.opens
  rw [hopen, List.append_nil] at hopens
  have hpart : acc <+: v.stream.copy.request.src.written := hacc ▸ List.take_prefix _ _
  have hend : frameLength opening ≤ opening.length := (Protocol.Frame.readFrom_eq_ok hframe).1
  rcases List.prefix_or_prefix_of_prefix hpart hopens with hle | hle
  · rcases Nat.lt_or_ge acc.length opening.length with hlt | hge
    · exact .inr ⟨hle, hlt⟩
    · exact .inl (hle.eq_of_length_le hge)
  · -- The header of the opening is in `acc` too, so `acc` is no longer than the opening.
    obtain ⟨xs, rfl⟩ := hle
    rw [Protocol.Frame.frameLength_append (Protocol.Frame.three_le_of_readFrom hframe)] at hwithin
    have hxs : xs = [] := by
      rw [List.length_append] at hwithin
      exact List.length_eq_zero_iff.1 (by omega)
    exact .inl (by rw [hxs, List.append_nil])

/-- The relay takes the rest of the opening. -/
theorem quietly_read (hv : v.Inv site opening) (hlive : v.stream.Live) (hopen : v.opening = [])
    {acc : Bytes} (hphase : v.stream.phase = .reading acc) :
    ∃ v', Quietly site consumerNext providerNext v v' ∧ v'.stream.Live ∧ v'.opening = [] ∧
      v'.stream.phase = .reading opening := by
  induction hn : opening.length - acc.length generalizing v acc with
  | zero =>
    refine ⟨v, .refl v, hlive, hopen, ?_⟩
    rcases part_of_opening hframe hv hopen hphase with rfl | ⟨-, hlt⟩
    · exact hphase
    · omega
  | succ n ih =>
    rcases part_of_opening hframe hv hopen hphase with rfl | ⟨hpart, hlt⟩
    · omega
    · have htaken := hv.stream.taken
      rw [hphase] at htaken
      obtain ⟨hfresh, hacc, -⟩ := htaken
      have hopens := hv.opens.length_le
      rw [hopen, List.append_nil] at hopens
      have hread : acc.length = v.stream.copy.request.src.read := by
        rw [← hacc, List.length_take, min_eq_left hfresh.read_le]
      have hpend : 1 ≤ v.stream.copy.request.src.pending.length := by
        rw [Pipe.pending, List.length_drop]
        omega
      have hwanted : 1 ≤ wanted acc := Protocol.Frame.wanted_of_prefix hframe hpart hlt
      have hstep : v.stream.next site (.take 1) =
          some ⟨.reading (acc ++ v.stream.copy.request.src.pending.take 1),
            { v.stream.copy with request := { v.stream.copy.request with
              src := v.stream.copy.request.src.take 1 } }⟩ := by
        simp only [Stream.next, hphase]
        rw [if_pos ⟨Nat.one_pos, hwanted, hpend⟩]
      have hquiet : Quietly site consumerNext providerNext v _ := .relay rfl hstep
      have hleft :
          opening.length - (acc ++ v.stream.copy.request.src.pending.take 1).length = n := by
        rw [List.length_append, List.length_take, min_eq_left hpend]
        omega
      have hlive' : Copying.Live { v.stream.copy with request := { v.stream.copy.request with
          src := v.stream.copy.request.src.take 1 } } :=
        hlive.copy.of_sides fun d => by cases d <;> exact ⟨rfl, rfl⟩
      obtain ⟨v', hv', h'⟩ := ih (hquiet.inv hv) ⟨hlive', .inl ⟨_, rfl⟩⟩ hopen rfl hleft
      exact ⟨v', hquiet.trans hv', h'⟩

variable {t : Tunnel}
  (hadmits : site.handler.acceptStream site.iroh site.state site.seen site.remote (.ok f) = .ok t)
  (hreaches : ∃ dial, runRelayDial t = .ok dial)

include hadmits hreaches

/-- The tunnel opens. -/
theorem quietly_tunnel (hv : v.Inv site opening) (hlive : v.stream.Live) (hopen : v.opening = []) :
    ∃ v', Quietly site consumerNext providerNext v v' ∧ v'.stream.copy.Live ∧ v'.opening = [] ∧
      v'.stream.phase = .copying t := by
  have hconnect : ∀ v : Conversation σ τ, v.stream.Live → v.opening = [] →
      v.stream.phase = .admitted t →
      ∃ v', Quietly site consumerNext providerNext v v' ∧ v'.stream.copy.Live ∧ v'.opening = [] ∧
        v'.stream.phase = .copying t := by
    intro v hlive hopen hphase
    obtain ⟨dial, hdial⟩ := hreaches
    have hstep : v.stream.next site (.connect true) =
        some { v.stream with phase := .copying t } := by
      simp only [Stream.next, hphase, hdial]
    exact ⟨_, .relay rfl hstep, hlive.copy, hopen, rfl⟩
  rcases hlive.phase with ⟨acc, hphase⟩ | ⟨t', hphase⟩ | ⟨t', hphase⟩
  · obtain ⟨v₁, hv₁, hlive₁, hopen₁, hphase₁⟩ := quietly_read hframe hv hlive hopen hphase
    have hwanted : wanted opening = 0 := by
      have := (Protocol.Frame.readFrom_eq_ok hframe).1
      unfold wanted
      omega
    have hanswer : site.answer opening = .admitted t := by
      simp [Site.answer, Site.verdict, hframe, hadmits]
    have hstep : v₁.stream.next site .accept = some { v₁.stream with phase := .admitted t } := by
      simp only [Stream.next, hphase₁, hwanted, if_true, hanswer]
    obtain ⟨v₂, hv₂, h₂⟩ := hconnect { v₁ with stream := { v₁.stream with phase := .admitted t } }
      ⟨hlive₁.copy, .inr (.inl ⟨t, rfl⟩)⟩ hopen₁ rfl
    exact ⟨v₂, hv₁.trans ((Quietly.relay rfl hstep).trans hv₂), h₂⟩
  · have htaken := hv.stream.taken
    rw [hphase] at htaken
    obtain ⟨-, -, ht'⟩ := opening_taken hframe hv htaken.1.read_le htaken.2
    rw [hadmits] at ht'
    obtain rfl := Except.ok.inj ht'
    exact hconnect v hlive hopen hphase
  · have htaken := hv.stream.taken
    rw [hphase] at htaken
    obtain ⟨⟨k, htook, hcarries⟩, -⟩ := htaken
    obtain ⟨-, -, ht'⟩ := opening_taken hframe hv (hcarries.skip_le.trans hcarries.read_le) htook
    rw [hadmits] at ht'
    obtain rfl := Except.ok.inj ht'
    exact ⟨v, .refl v, hlive.copy, hopen, hphase⟩

/-- **A conversation settles**, unless the tunnel has failed. -/
theorem settle (hv : v.Inv site opening) (hlive : v.stream.Live) :
    ∃ v', Quietly site consumerNext providerNext v v' ∧ v'.Settled := by
  obtain ⟨v₁, hv₁, hlive₁, hopen₁⟩ := quietly_open hlive
  obtain ⟨v₂, hv₂, hlive₂, hopen₂, hphase₂⟩ :=
    quietly_tunnel hframe hadmits hreaches (hv₁.inv hv) hlive₁ hopen₁
  obtain ⟨v₃, hv₃, hlive₃, hopen₃, hphase₃, hloop₃, hpend₃, -⟩ :=
    quietly_deliver .request hlive₂ hphase₂
  obtain ⟨v₄, hv₄, hlive₄, hopen₄, hphase₄, hloop₄, hpend₄, hother⟩ :=
    quietly_deliver .reply hlive₃ hphase₃
  have hrequest : v₄.stream.copy.side .request = v₃.stream.copy.side .request := hother
  refine ⟨v₄, hv₁.trans (hv₂.trans (hv₃.trans hv₄)), ?_, ⟨t, hphase₄⟩, ?_, ?_, hlive₄.source⟩
  · rw [hopen₄, hopen₃, hopen₂]
  · intro d
    cases d with
    | request =>
      rw [hrequest]
      exact hloop₃
    | reply => exact hloop₄
  · intro d
    cases d with
    | request =>
      rw [hrequest]
      exact hpend₃
    | reply => exact hpend₄

end Settle

/-! ## Every step of the direct connection -/

section Match

variable {σ τ ι κ : Type} {site : Site} {consumerNext : σ → PeerAct UInt8 ι → Option σ}
  {providerNext : τ → PeerAct UInt8 κ → Option τ} {v v' : Conversation σ τ} {opening : Bytes}

variable (site) in
/-- In an open tunnel a peer can always write, and read what is there. -/
theorem act_of_settled (hv : v.Settled) (d : Direction) {a : PeerAct UInt8 ι}
    (hoffers : ∀ xs, a = .reads xs → (v.stream.copy.side d.other).dst.Offers xs) :
    ∃ s, Conversation.act site d v.stream a = some s ∧ s.Live := by
  obtain ⟨t, ht⟩ := hv.phase
  have hlive : v.stream.copy.Live :=
    ⟨fun d => ⟨[], hv.loop d⟩, hv.source⟩
  have hnext : ∀ {e : CopyEvent} {c : Copying},
      v.stream.copy.next t.initialReplyBps.isSome e = some c →
        v.stream.next site (.stream e) = some { v.stream with copy := c } := by
    intro e c hc
    simp only [Stream.next, ht, hc, Option.map_some]
  cases a with
  | writes xs =>
    have hwrite : v.stream.copy.next t.initialReplyBps.isSome (.peerWrites d xs) =
        some (v.stream.copy.setSide d { v.stream.copy.side d with
          src := (v.stream.copy.side d).src.write xs }) := by
      simp [Copying.next, hv.source d]
    refine ⟨_, hnext hwrite, hlive.of_sides fun d' => ?_, .inr (.inr ⟨t, ht⟩)⟩
    cases d <;> cases d' <;> exact ⟨rfl, rfl⟩
  | reads xs =>
    have hof := hoffers xs rfl
    have hread : v.stream.copy.next t.initialReplyBps.isSome (.peerReads d.other xs.length) =
        some (v.stream.copy.setSide d.other { v.stream.copy.side d.other with
          dst := (v.stream.copy.side d.other).dst.take xs.length }) := by
      have hle : xs.length ≤ (v.stream.copy.side d.other).dst.pending.length := hof.length_le
      simp [Copying.next, hle]
    refine ⟨_, (if_pos hof).trans (hnext hread), hlive.of_sides fun d' => ?_,
      .inr (.inr ⟨t, ht⟩)⟩
    cases d <;> cases d' <;> exact ⟨rfl, rfl⟩
  | moves i => exact ⟨v.stream, rfl, hlive, .inr (.inr ⟨t, ht⟩)⟩

variable {f : Frame} (hframe : readFrom site.json ⟨opening, none⟩ = .ok (f, ⟨[], none⟩))

include hframe

/-- In a settled conversation, each side has got all the other wrote. -/
theorem written_of_settled (hv : v.Inv site opening) (hsettled : v.Settled) :
    v.stream.copy.request.dst.written = (v.direct opening).there.written ∧
      v.stream.copy.reply.dst.written = (v.direct opening).back.written := by
  obtain ⟨t, ht⟩ := hsettled.phase
  obtain ⟨g₁, hloop₁⟩ := hsettled.loop .request
  obtain ⟨g₂, hloop₂⟩ := hsettled.loop .reply
  have hrequest := carries_opening hframe hv ht
  have hreply := hv.stream.reply
  unfold SideCarries at hrequest hreply
  rw [show v.stream.copy.request.loop = _ from hloop₁] at hrequest
  rw [show v.stream.copy.reply.loop = _ from hloop₂] at hreply
  constructor
  · show _ = (v.stream.copy.request.src.written ++ v.opening).drop opening.length
    rw [hsettled.opening, List.append_nil]
    exact hrequest.written_eq_of_idle (hsettled.pending .request)
  · exact hreply.written_eq_of_idle (hsettled.pending .reply)

/-- **Every step of the direct connection** can be taken by a settled conversation. -/
theorem step_of_direct {a : PeerAct UInt8 ι ⊕ PeerAct UInt8 κ} {d : Direct UInt8 σ τ}
    (h : DirectSteps consumerNext providerNext (v.direct opening) a d) (hv : v.Inv site opening)
    (hsettled : v.Settled) :
    ∃ e v', TalkSteps site consumerNext providerNext v e v' ∧ v'.direct opening = d ∧
      v'.stream.Live := by
  obtain ⟨hthere, hback⟩ := written_of_settled hframe hv hsettled
  -- It is enough that the peer can act: the direct connection has one answer to it.
  have key : ∀ e v', TalkSteps site consumerNext providerNext v e v' → e.direct = some a →
      v'.stream.Live →
      ∃ e v', TalkSteps site consumerNext providerNext v e v' ∧ v'.direct opening = d ∧
        v'.stream.Live := by
    intro e v' hstep ha hlive
    have hdirect : Direct.next consumerNext providerNext (v.direct opening) a =
      some (v'.direct opening) := direct_of_step hframe hstep ha hv
    have h' : Direct.next consumerNext providerNext (v.direct opening) a = some d := h
    rw [hdirect] at h'
    exact ⟨e, v', hstep, Option.some.inj h', hlive⟩
  have h' : Direct.next consumerNext providerNext (v.direct opening) a = some d := h
  cases a with
  | inl a =>
    obtain ⟨c, hc, hrest⟩ := Option.bind_eq_some_iff.1 h'
    have hoffers : ∀ xs, a = .reads xs → v.stream.copy.reply.dst.Offers xs := by
      intro xs ha
      subst ha
      dsimp only at hrest
      split_ifs at hrest with hof
      exact offers_of_prefix hof (by rw [hback]) rfl
    obtain ⟨s, hs, hlive⟩ := act_of_settled site hsettled .request hoffers
    have hc' : consumerNext v.consumer a = some c := hc
    refine key (.consumer a) { v with consumer := c, stream := s } ?_ rfl hlive
    show v.next site consumerNext providerNext (.consumer a) = _
    simp only [Conversation.next, hsettled.opening, if_true, hc', Option.bind_some, hs,
      Option.map_some]
  | inr a =>
    obtain ⟨p, hp, hrest⟩ := Option.bind_eq_some_iff.1 h'
    have hoffers : ∀ xs, a = .reads xs → v.stream.copy.request.dst.Offers xs := by
      intro xs ha
      subst ha
      dsimp only at hrest
      split_ifs at hrest with hof
      exact offers_of_prefix hof (by rw [hthere]) rfl
    obtain ⟨s, hs, hlive⟩ := act_of_settled site hsettled .reply hoffers
    obtain ⟨t, ht⟩ := hsettled.phase
    have hp' : providerNext v.provider a = some p := hp
    refine key (.provider a) { v with provider := p, stream := s } ?_ rfl hlive
    show v.next site consumerNext providerNext (.provider a) = _
    simp only [Conversation.next, ht, hp', Option.bind_some, hs, Option.map_some]

end Match

section Runs

variable {σ τ ι κ : Type} {site : Site} {consumerNext : σ → PeerAct UInt8 ι → Option σ}
  {providerNext : τ → PeerAct UInt8 κ → Option τ} {v v' : Conversation σ τ} {opening : Bytes}
  {f : Frame} (hframe : readFrom site.json ⟨opening, none⟩ = .ok (f, ⟨[], none⟩))

include hframe

/-- Every conversation is one on the direct connection. -/
theorem direct_of_run {es : List (TalkEvent ι κ)}
    (h : Run (TalkSteps site consumerNext providerNext) v es v') (hv : v.Inv site opening) :
    ∃ as, Run (DirectSteps consumerNext providerNext) (v.direct opening) as
      (v'.direct opening) := by
  have hsim : ∃ as d, Run (DirectSteps consumerNext providerNext) (v.direct opening) as d ∧
      v'.Inv site opening ∧ v'.direct opening = d := by
    refine h.simulates (R := fun v d => v.Inv site opening ∧ v.direct opening = d) ?_ ⟨hv, rfl⟩
    intro v₁ e v₂ d hs hR
    obtain ⟨hv₁, rfl⟩ := hR
    cases he : e.direct with
    | none => exact ⟨[], _, .nil _, talk_inv_step hs hv₁, direct_quiet hs he⟩
    | some a =>
      exact ⟨[a], _, .cons (direct_of_step hframe hs he hv₁) (.nil _), talk_inv_step hs hv₁, rfl⟩
  obtain ⟨as, d, hrun, -, rfl⟩ := hsim
  exact ⟨as, hrun⟩

variable {t : Tunnel}
  (hadmits : site.handler.acceptStream site.iroh site.state site.seen site.remote (.ok f) = .ok t)
  (hreaches : ∃ dial, runRelayDial t = .ok dial)

include hadmits hreaches

/-- Everything that can go on on the direct connection can go on in the conversation. -/
theorem run_of_direct {as : List (PeerAct UInt8 ι ⊕ PeerAct UInt8 κ)} {d : Direct UInt8 σ τ}
    (h : Run (DirectSteps consumerNext providerNext) (v.direct opening) as d)
    (hv : v.Inv site opening) (hlive : v.stream.Live) :
    ∃ es v', Run (TalkSteps site consumerNext providerNext) v es v' ∧ v'.direct opening = d := by
  have hsim : ∃ es v', Run (TalkSteps site consumerNext providerNext) v es v' ∧
      v'.Inv site opening ∧ v'.stream.Live ∧ v'.direct opening = d := by
    refine h.simulates
      (R := fun d (v : Conversation σ τ) =>
        v.Inv site opening ∧ v.stream.Live ∧ v.direct opening = d) ?_ ⟨hv, hlive, rfl⟩
    intro d₁ a d₂ v₁ hs hR
    obtain ⟨hv₁, hlive₁, rfl⟩ := hR
    obtain ⟨v₂, hquiet, hsettled⟩ := settle hframe hadmits hreaches hv₁ hlive₁
    rw [← hquiet.direct] at hs
    obtain ⟨e, v₃, hstep, hd, hlive₃⟩ := step_of_direct hframe hs (hquiet.inv hv₁) hsettled
    obtain ⟨es, hes, -⟩ := hquiet
    exact ⟨es ++ [e], v₃, hes.snoc hstep,
      (hes.snoc hstep).invariant (fun _ _ _ hs => talk_inv_step hs) hv₁, hlive₃, hd⟩
  obtain ⟨es, v', hrun, -, -, hd⟩ := hsim
  exact ⟨es, v', hrun, hd⟩

end Runs

/-! ## The handshake -/

section Handshake

variable (site : Site) (spec : ConsumerSpec) (target : EndpointId)

/-- The `DataOpen` of `dial_relay`. -/
def relayFrame : Frame :=
  .dataOpen spec.name (site.iroh.toStr target) (site.iroh.toStr site.remote) (.replicate 0)

def relayOpening : Bytes := (Frame.writeTo site.json (relayFrame site spec target) ⟨[], none⟩).2.out

/-- `dial_relay`, with its stream to the relay, and the provider's handler. -/
def dialRelay : Conversation (Peer ConsumerPhase) (Peer (ProviderPhase Bytes32)) :=
  ⟨relayOpening site spec target, dialStart site.json spec, providerStart, .init⟩

/-- `dial_direct`, with its stream to the provider, and the provider's handler. -/
def dialDirect (json : SerdeJson) :
    Direct UInt8 (Peer ConsumerPhase) (Peer (ProviderPhase Bytes32)) :=
  ⟨dialStart json spec, providerStart, .empty, .empty⟩

/-- The relay finds the `DataOpen` in what `dial_relay` writes first. -/
theorem readFrom_relayOpening
    (hwrite : (Frame.writeTo site.json (relayFrame site spec target) ⟨[], none⟩).1 = .ok ()) :
    readFrom site.json ⟨relayOpening site spec target, none⟩ =
      .ok (relayFrame site spec target, ⟨[], none⟩) := by
  obtain ⟨payload, henc, hlen, hout⟩ :=
    Frame.writeTo_eq_ok (Writer.reliable_mk []) (Prod.ext hwrite rfl)
  have hbytes : relayOpening site spec target = Frame.frameBytes .dataOpen payload :=
    congrArg Writer.out hout
  have hdecode : Frame.decode site.json Tag.dataOpen.byte payload =
      .ok (relayFrame site spec target) := by
    rw [Frame.decode_byte]
    exact Frame.decodeDataOpen_encodePayload henc
  have hread := Frame.readFrom_frameBytes_of_decode hdecode hlen ⟨[], none⟩
  rw [hbytes]
  rwa [List.append_nil] at hread

/-- What a handshake is about: the two sides' names and secrets, and the nonce. -/
structure Exchange where
  hmac : Bytes → Bytes → Bytes32
  consumer : ConsumerSpec
  serving : Serving
  provider : ProviderSpec
  nonce : Bytes32

/-- The steps of the handshake of `dial_relay`. -/
abbrev Exchange.RelaySteps (x : Exchange) :=
  TalkSteps site (dialNext site.json x.hmac x.consumer)
    (providerNext site.json x.hmac x.serving x.provider x.nonce)

/-- The steps of the handshake of `dial_direct`. -/
abbrev Exchange.DialSteps (x : Exchange) (json : SerdeJson) :=
  DirectSteps (dialNext json x.hmac x.consumer)
    (providerNext json x.hmac x.serving x.provider x.nonce)

/-- The handshake through the relay can come to its good end. -/
def Exchange.RelaySucceeds (x : Exchange)
    (v : Conversation (Peer ConsumerPhase) (Peer (ProviderPhase Bytes32))) : Prop :=
  ∃ es v', Run (x.RelaySteps site) v es v' ∧ Succeeded v'.consumer v'.provider

/-- The handshake on the direct connection can. -/
def Exchange.DirectSucceeds (x : Exchange) (json : SerdeJson)
    (d : Direct UInt8 (Peer ConsumerPhase) (Peer (ProviderPhase Bytes32))) : Prop :=
  ∃ as d', Run (x.DialSteps json) d as d' ∧ Succeeded d'.near d'.far

/-- **The relay is transparent.** In every run of a stream, what is delivered to the provider is a
prefix of what the consumer wrote after its frame, and what is delivered to the consumer a prefix
of what the provider wrote; all of it, when the copy has ended well. And for every `DataOpen` of
`dial_relay` that the relay admits, for a provider it reaches, the handshake can succeed when
`dial_direct`'s can: from the start, and from wherever it has come to while the streams hold. -/
theorem relay_transparent (x : Exchange) :
    (∀ es s t, Run (StreamSteps site) .init es s → s.phase = .copying t →
      ∃ f w, readFrom site.json ⟨s.copy.request.src.written, none⟩ = .ok (f, ⟨w, none⟩) ∧
        site.handler.acceptStream site.iroh site.state site.seen site.remote (.ok f) = .ok t ∧
        (s.copy.request.dst.written <+: w ∧
          (s.copy.request.loop = .ended true → s.copy.request.dst.written = w)) ∧
        s.copy.reply.dst.written <+: s.copy.reply.src.written ∧
          (s.copy.reply.loop = .ended true →
            s.copy.reply.dst.written = s.copy.reply.src.written)) ∧
    ∀ t dial,
      (Frame.writeTo site.json (relayFrame site x.consumer target) ⟨[], none⟩).1 = .ok () →
      site.handler.acceptStream site.iroh site.state site.seen site.remote
        (.ok (relayFrame site x.consumer target)) = .ok t →
      runRelayDial t = .ok dial →
      (x.RelaySucceeds site (dialRelay site x.consumer target) ↔
        x.DirectSucceeds site.json (dialDirect x.consumer site.json)) ∧
      ∀ es v, Run (x.RelaySteps site) (dialRelay site x.consumer target) es v →
        v.stream.Live →
        (x.RelaySucceeds site v ↔
          x.DirectSucceeds site.json (v.direct (relayOpening site x.consumer target))) := by
  refine ⟨fun es s t h ht => stream_carries h ht, fun t dial hwrite hadmits hreaches => ?_⟩
  have hframe := readFrom_relayOpening site x.consumer target hwrite
  have hstart : (dialRelay site x.consumer target).Inv site (relayOpening site x.consumer target) :=
    ⟨stream_inv_init site, List.prefix_rfl, fun _ => rfl⟩
  have key : ∀ v, v.Inv site (relayOpening site x.consumer target) → v.stream.Live →
      (x.RelaySucceeds site v ↔
        x.DirectSucceeds site.json (v.direct (relayOpening site x.consumer target))) := by
    intro v hv hlive
    constructor
    · intro h
      obtain ⟨es, v', hrun, hsucc⟩ := h
      obtain ⟨as, has⟩ := direct_of_run hframe hrun hv
      exact ⟨as, _, has, hsucc⟩
    · intro h
      obtain ⟨as, d, hrun, hsucc⟩ := h
      obtain ⟨es, v', hes, rfl⟩ := run_of_direct hframe hadmits ⟨dial, hreaches⟩ hrun hv hlive
      exact ⟨es, v', hes, hsucc⟩
  refine ⟨?_, fun es v hrun hlive => ?_⟩
  · have hdirect : (dialRelay site x.consumer target).direct (relayOpening site x.consumer target) =
        dialDirect x.consumer site.json := by
      simp [Conversation.direct, dialRelay, dialDirect, Stream.init, Copying.start, Pipe.empty]
    rw [← hdirect]
    refine key _ hstart ⟨⟨fun d => ?_, fun d => ?_⟩, .inl ⟨[], rfl⟩⟩
    · cases d <;> exact ⟨[], false, rfl⟩
    · cases d <;> rfl
  · exact key v (hrun.invariant (fun _ _ _ hs => talk_inv_step hs) hstart) hlive

end Handshake

/-! ## Carol dials "web" -/

/-- The HMAC-SHA256 of `"web"` and a nonce of fives, under the key `[7]`. -/
def webMac : Bytes32 :=
  ⟨[69, 75, 240, 151, 53, 137, 55, 104, 150, 244, 189, 99, 218, 131, 126, 215, 139, 29, 7, 187, 223,
    4, 89, 153, 184, 138, 99, 209, 14, 28, 60, 242], rfl⟩

def webExchange : Exchange where
  hmac := fun key msg =>
    if key = [7] ∧ msg = utf8 "web" ++ (Bytes32.replicate 5).val then webMac else .replicate 0
  consumer := ⟨"web", [7]⟩
  serving := .backend
  provider := ⟨"web", [7]⟩
  nonce := .replicate 5

/-- The relay of Alice's server, for a stream of Carol's. -/
def webSite : Site := ⟨Frame.sampleJson, Iroh.hex, ⟨none⟩, webServer.state, webSeen, carol⟩

/-- Each frame is written and read in one piece. -/
def webTalk : List (PeerAct UInt8 Turn ⊕ PeerAct UInt8 Turn) :=
  let frame (f : Frame) : Bytes := (Frame.writeTo Frame.sampleJson f ⟨[], none⟩).2.out
  [.inl (.writes (frame .authHello)), .inr (.reads (frame .authHello)), .inr (.moves (.frame true)),
    .inr (.writes (frame (.authNonce (.replicate 5)))),
    .inl (.reads ((frame (.authNonce (.replicate 5))).take 3)),
    .inl (.reads ((frame (.authNonce (.replicate 5))).drop 3)), .inl (.moves (.frame true)),
    .inl (.writes (frame (.authProof webMac))), .inr (.reads ((frame (.authProof webMac)).take 3)),
    .inr (.reads ((frame (.authProof webMac)).drop 3)), .inr (.moves (.frame true)),
    .inr (.writes (frame .authOk)), .inl (.reads (frame .authOk)), .inl (.moves (.frame true))]

theorem directSucceeds_web :
    webExchange.DirectSucceeds webSite.json (dialDirect webExchange.consumer webSite.json) := by
  have hphases : (exec (Direct.next (dialNext webSite.json webExchange.hmac webExchange.consumer)
      (providerNext webSite.json webExchange.hmac .backend ⟨"web", [7]⟩ (.replicate 5)))
      (dialDirect webExchange.consumer webSite.json) webTalk).map
        (fun d => (d.near.phase, d.far.phase)) =
      some (.connected, .authenticated (.replicate 5) webMac .backend) := by
    decide +kernel
  obtain ⟨d, hd, hphase⟩ := Option.map_eq_some_iff.1 hphases
  obtain ⟨hnear, hfar⟩ := Prod.mk.inj hphase
  exact ⟨webTalk, d, run_of_exec hd, hnear, _, _, _, hfar⟩

/-- Carol's handshake with Alice, through the relay. -/
theorem relaySucceeds_web :
    webExchange.RelaySucceeds webSite (dialRelay webSite webExchange.consumer alice) := by
  have hadmits : webSite.handler.acceptStream webSite.iroh webSite.state webSite.seen webSite.remote
      (.ok (relayFrame webSite webExchange.consumer alice)) = .ok ⟨alice, "web", none⟩ := by
    decide
  have hreaches : runRelayDial ⟨alice, "web", none⟩ = .ok (alice, utf8 "meshly-core/web") := by
    decide
  exact ((relay_transparent webSite alice webExchange).2 _ _ (by decide +kernel) hadmits
    hreaches).1.2 directSucceeds_web

end MeshlyCore.Relay
