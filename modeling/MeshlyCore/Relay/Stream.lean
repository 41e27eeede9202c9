import MeshlyCore.Protocol.Reading
import MeshlyCore.Relay.Admission
import MeshlyCore.Relay.Copy

/-!
# One stream of the relay

`accept_loop` and `run_relay` for one stream of a consumer: the relay reads one frame, checks it,
dials the provider, and from then on copies what comes after the frame. The consumer writes when
and as much as it likes, and the relay reads what has come in so far.

`stream_carries` says what the relay delivers: to the provider a prefix of what the consumer wrote
after its frame, to the consumer a prefix of what the provider wrote, and all of it when the copy
has ended well.
-/

namespace MeshlyCore.Relay

open Streams Machine Protocol Registry
open Protocol.Frame (readFrom frameLength wanted)

/-! ## The stream -/

/-- What the relay goes by when the frame has come in: its configuration, the registry and the
order it sees the records in, and the peer. -/
structure Site where
  json : SerdeJson
  iroh : Iroh
  handler : RelayHandler
  state : ServerState
  seen : Seen
  remote : EndpointId

inductive Phase where
  /-- In `read_from`, with the bytes that have come in. -/
  | reading (acc : Bytes)
  /-- `run_relay` is spawned. -/
  | admitted (t : Tunnel)
  | copying (t : Tunnel)
  | refused (r : Refusal)
  /-- The provider could not be dialled. -/
  | unreachable (t : Tunnel)
  | panicked
  deriving DecidableEq

/-- A stream of the relay. The pipes of the copy are there from the start: the consumer's own, and
those to the provider, which nothing touches before the tunnel is open. -/
structure Stream where
  phase : Phase
  copy : Copying

def Stream.init : Stream := ⟨.reading [], .start .empty⟩

/-- What can happen before the tunnel is open, apart from the relay's own steps. -/
def CopyEvent.isConsumer : CopyEvent → Bool
  | .peerWrites d _ => d = .request
  | .peerFinishes d => d = .request
  | .peerReads d _ => d = .reply
  | _ => false

inductive StreamEvent where
  /-- `read_exact` takes what has come in. -/
  | take (n : ℕ)
  /-- The stream ends or breaks before the frame is complete. -/
  | lost (e : FrameError)
  /-- The frame is decoded and checked. -/
  | accept
  /-- `run_relay` dials. -/
  | connect (ok : Bool)
  | stream (e : CopyEvent)
  deriving DecidableEq

/-- The phase after the frame was checked. -/
def Site.verdict (site : Site) (frame : Except FrameError Frame) : Phase :=
  match site.handler.acceptStream site.iroh site.state site.seen site.remote frame with
  | .ok t => .admitted t
  | .error r => .refused r

def Site.answer (site : Site) (acc : Bytes) : Phase :=
  match readFrom site.json ⟨acc, none⟩ with
  | .ok (f, _) => site.verdict (.ok f)
  | .err e => site.verdict (.error e)
  | .panic => .panicked

namespace Stream

def next (site : Site) (s : Stream) (e : StreamEvent) : Option Stream :=
  match s.phase, e with
  | .reading acc, .take n =>
      let src := s.copy.request.src
      if 0 < n ∧ n ≤ wanted acc ∧ n ≤ src.pending.length then
        some ⟨.reading (acc ++ src.pending.take n),
          { s.copy with request := { s.copy.request with src := src.take n } }⟩
      else none
  | .reading acc, .lost err =>
      if 0 < wanted acc then some { s with phase := site.verdict (.error err) } else none
  | .reading acc, .accept =>
      if wanted acc = 0 then some { s with phase := site.answer acc } else none
  | .admitted t, .connect ok =>
      match runRelayDial t, ok with
      | .ok _, true => some { s with phase := .copying t }
      | _, _ => some { s with phase := .unreachable t }
  | .copying t, .stream e =>
      (s.copy.next t.initialReplyBps.isSome e).map fun c => { s with copy := c }
  | _, .stream e =>
      if e.isConsumer then (s.copy.next false e).map fun c => { s with copy := c } else none
  | _, _ => none

end Stream

abbrev StreamSteps (site : Site) : Stream → StreamEvent → Stream → Prop :=
  stepOf (Stream.next site)

section Steps

variable {site : Site} {s s' : Stream} {e : StreamEvent}

/-- What a step of a stream can be. -/
theorem stream_cases (h : StreamSteps site s e s') :
    (∃ acc n, s.phase = .reading acc ∧ e = .take n ∧ 0 < n ∧ n ≤ wanted acc ∧
      n ≤ s.copy.request.src.pending.length ∧
      s' = ⟨.reading (acc ++ s.copy.request.src.pending.take n),
        { s.copy with request :=
          { s.copy.request with src := s.copy.request.src.take n } }⟩) ∨
    (∃ acc err, s.phase = .reading acc ∧ e = .lost err ∧
      s' = { s with phase := site.verdict (.error err) }) ∨
    (∃ acc, s.phase = .reading acc ∧ e = .accept ∧ wanted acc = 0 ∧
      s' = { s with phase := site.answer acc }) ∨
    (∃ t ok, s.phase = .admitted t ∧ e = .connect ok ∧
      ((∃ dial, runRelayDial t = .ok dial) ∧ s' = { s with phase := .copying t } ∨
        s' = { s with phase := .unreachable t })) ∨
    (∃ t e' c, s.phase = .copying t ∧ e = .stream e' ∧
      CopySteps t.initialReplyBps.isSome s.copy e' c ∧ s' = { s with copy := c }) ∨
    (∃ e' c, (∀ t, s.phase ≠ .copying t) ∧ e = .stream e' ∧ e'.isConsumer ∧
      CopySteps false s.copy e' c ∧ s' = { s with copy := c }) := by
  have h' : s.next site e = some s' := h
  unfold Stream.next at h'
  split at h'
  · rename_i acc n hphase
    dsimp only at h'
    split_ifs at h' with hn
    exact .inl ⟨acc, n, hphase, rfl, hn.1, hn.2.1, hn.2.2, (Option.some.inj h').symm⟩
  · rename_i acc err hphase
    split_ifs at h'
    exact .inr (.inl ⟨acc, err, hphase, rfl, (Option.some.inj h').symm⟩)
  · rename_i acc hphase
    split_ifs at h' with hw
    exact .inr (.inr (.inl ⟨acc, hphase, rfl, hw, (Option.some.inj h').symm⟩))
  · rename_i t _ hphase
    split at h'
    · rename_i dial hdial
      exact .inr (.inr (.inr (.inl
        ⟨t, true, hphase, rfl, .inl ⟨⟨dial, hdial⟩, (Option.some.inj h').symm⟩⟩)))
    · exact .inr (.inr (.inr (.inl ⟨t, _, hphase, rfl, .inr (Option.some.inj h').symm⟩)))
  · rename_i t e' hphase
    obtain ⟨c, hc, rfl⟩ := Option.map_eq_some_iff.1 h'
    exact .inr (.inr (.inr (.inr (.inl ⟨t, e', c, hphase, rfl, hc, rfl⟩))))
  · rename_i e' hphase
    split_ifs at h' with hcons
    obtain ⟨c, hc, rfl⟩ := Option.map_eq_some_iff.1 h'
    exact .inr (.inr (.inr (.inr (.inr ⟨e', c, fun t ht => hphase t ht, rfl, hcons, hc,
      rfl⟩))))
  · cases h'

end Steps

/-- What the peer writes to the source of a direction. -/
def StreamEvent.wrote (d : Direction) : StreamEvent → Bytes
  | .stream e => e.wrote d
  | _ => []

/-- How much the peer reads from the sink of a direction. -/
def StreamEvent.took (d : Direction) : StreamEvent → ℕ
  | .stream e => e.took d
  | _ => 0

/-- The far ends of a stream. -/
theorem stream_ends {site : Site} {s s' : Stream} {e : StreamEvent}
    (h : StreamSteps site s e s') (d : Direction) :
    (s'.copy.side d).src.written = (s.copy.side d).src.written ++ e.wrote d ∧
      (s'.copy.side d).dst.read = (s.copy.side d).dst.read + e.took d := by
  rcases stream_cases h with ⟨acc, n, -, rfl, -, -, -, rfl⟩ | ⟨acc, err, -, rfl, rfl⟩ |
      ⟨acc, -, rfl, -, rfl⟩ | ⟨t, ok, -, rfl, hdial⟩ |
      ⟨t, e', c, -, rfl, hstep, rfl⟩ | ⟨e', c, -, rfl, -, hstep, rfl⟩
  · cases d <;> simp [Copying.side, Pipe.take, StreamEvent.wrote, StreamEvent.took]
  · simp [StreamEvent.wrote, StreamEvent.took]
  · simp [StreamEvent.wrote, StreamEvent.took]
  · rcases hdial with ⟨-, rfl⟩ | rfl <;> simp [StreamEvent.wrote, StreamEvent.took]
  · exact ends_step hstep d
  · exact ends_step hstep d

/-! ## What the relay has read, and what it carries -/

/-- These bytes are one frame, and the relay admits it. -/
def Site.Took (site : Site) (t : Tunnel) (acc : Bytes) : Prop :=
  ∃ f, readFrom site.json ⟨acc, none⟩ = .ok (f, ⟨[], none⟩) ∧
    site.handler.acceptStream site.iroh site.state site.seen site.remote (.ok f) = .ok t

/-- Nothing is copied yet. -/
structure Copying.Fresh (c : Copying) : Prop where
  loop : c.request.loop = .start
  written : c.request.dst.written = []
  read_le : c.request.src.read ≤ c.request.src.written.length

/-- What the relay has taken from the consumer's stream in each phase. -/
def Stream.Taken (site : Site) (c : Copying) : Phase → Prop
  | .reading acc =>
      c.Fresh ∧ c.request.src.written.take c.request.src.read = acc ∧ acc.length ≤ frameLength acc
  | .admitted t => c.Fresh ∧ site.Took t (c.request.src.written.take c.request.src.read)
  | .copying t =>
      (∃ k, site.Took t (c.request.src.written.take k) ∧ SideCarries k c.request) ∧
        ∃ dial, runRelayDial t = .ok dial
  | _ => True

structure Stream.Inv (site : Site) (s : Stream) : Prop where
  taken : Stream.Taken site s.copy s.phase
  reply : SideCarries 0 s.copy.reply

section Inv

variable {site : Site} {s s' : Stream} {e : StreamEvent}

/-- Before the tunnel is open, the consumer's stream only grows. -/
theorem fresh_consumer {c c' : Copying} {e : CopyEvent} (h : CopySteps false c e c')
    (hcons : e.isConsumer) (hc : c.Fresh) :
    c'.Fresh ∧ c'.request.src.read = c.request.src.read ∧
      c'.request.src.written.take c'.request.src.read =
        c.request.src.written.take c.request.src.read := by
  have h' : c.next false e = some c' := h
  cases e with
  | peerWrites d bytes =>
    obtain rfl : d = .request := by simpa [CopyEvent.isConsumer] using hcons
    simp only [Copying.next] at h'
    split_ifs at h'
    obtain rfl := Option.some.inj h'
    refine ⟨⟨hc.loop, hc.written, ?_⟩, rfl, List.take_append_of_le_length hc.read_le⟩
    show c.request.src.read ≤ (c.request.src.written ++ bytes).length
    rw [List.length_append]
    exact hc.read_le.trans (Nat.le_add_right _ _)
  | peerFinishes d =>
    obtain rfl : d = .request := by simpa [CopyEvent.isConsumer] using hcons
    obtain rfl := Option.some.inj h'
    exact ⟨⟨hc.loop, hc.written, hc.read_le⟩, rfl, rfl⟩
  | peerReads d n =>
    obtain rfl : d = .reply := by simpa [CopyEvent.isConsumer] using hcons
    simp only [Copying.next] at h'
    split_ifs at h'
    obtain rfl := Option.some.inj h'
    exact ⟨⟨hc.loop, hc.written, hc.read_le⟩, rfl, rfl⟩
  | _ => cases hcons

/-- A complete frame that is within itself is all the relay has taken. -/
theorem taken_answer {c : Copying} {acc : Bytes} (h : Stream.Taken site c (.reading acc)) :
    Stream.Taken site c (site.answer acc) := by
  obtain ⟨hfresh, rfl, hwithin⟩ := h
  unfold Site.answer Site.verdict
  split
  · rename_i f r hread
    split
    · rename_i t ht
      refine ⟨hfresh, f, ?_, ht⟩
      rw [hread, Protocol.Frame.readFrom_exact hread hwithin]
    · trivial
  · split
    · rename_i t ht
      simp [RelayHandler.acceptStream] at ht
    · trivial
  · trivial

theorem stream_inv_init (site : Site) : Stream.init.Inv site where
  taken := ⟨⟨rfl, rfl, le_rfl⟩, rfl, by decide⟩
  reply := Carries.start rfl le_rfl rfl

theorem stream_inv_step (h : StreamSteps site s e s') (hs : s.Inv site) : s'.Inv site := by
  have htaken := hs.taken
  rcases stream_cases h with ⟨acc, n, hphase, -, -, hn, hlen, rfl⟩ | ⟨acc, err, hphase, -, rfl⟩ |
      ⟨acc, hphase, -, -, rfl⟩ | ⟨t, ok, hphase, -, hdial⟩ |
      ⟨t, e', c, hphase, -, hstep, rfl⟩ | ⟨e', c, hphase, -, hcons, hstep, rfl⟩
  · rw [hphase] at htaken
    obtain ⟨hfresh, hacc, hwithin⟩ := htaken
    refine ⟨⟨⟨hfresh.loop, hfresh.written, ?_⟩, ?_, ?_⟩, hs.reply⟩
    · show s.copy.request.src.read + n ≤ s.copy.request.src.written.length
      have hpend : s.copy.request.src.pending.length =
          s.copy.request.src.written.length - s.copy.request.src.read := List.length_drop
      have := hfresh.read_le
      omega
    · rw [← hacc]
      exact Pipe.take_read_take
    · refine Protocol.Frame.within_append hwithin ?_
      rw [List.length_take]
      exact (min_le_left _ _).trans hn
  · refine ⟨?_, hs.reply⟩
    simp [Site.verdict, RelayHandler.acceptStream, Stream.Taken]
  · rw [hphase] at htaken
    exact ⟨taken_answer htaken, hs.reply⟩
  · rw [hphase] at htaken
    obtain ⟨hfresh, htook⟩ := htaken
    rcases hdial with ⟨hdial, rfl⟩ | rfl
    · refine ⟨⟨⟨s.copy.request.src.read, htook, ?_⟩, hdial⟩, hs.reply⟩
      unfold SideCarries
      rw [hfresh.loop]
      exact Carries.start rfl hfresh.read_le hfresh.written
    · exact ⟨trivial, hs.reply⟩
  · rw [hphase] at htaken
    obtain ⟨⟨k, htook, hcarries⟩, hdial⟩ := htaken
    refine ⟨?_, carries_step (d := .reply) hstep hs.reply⟩
    show Stream.Taken site c s.phase
    rw [hphase]
    refine ⟨⟨k, ?_, carries_step (d := .request) hstep hcarries⟩, hdial⟩
    have hgrows : c.request.src.written = s.copy.request.src.written ++ e'.wrote .request :=
      (ends_step hstep .request).1
    rw [hgrows, List.take_append_of_le_length (hcarries.skip_le.trans hcarries.read_le)]
    exact htook
  · refine ⟨?_, carries_step (d := .reply) hstep hs.reply⟩
    show Stream.Taken site c s.phase
    cases hp : s.phase with
    | reading acc =>
      rw [hp] at htaken
      obtain ⟨hfresh, hacc, hwithin⟩ := htaken
      obtain ⟨hfresh', -, htake⟩ := fresh_consumer hstep hcons hfresh
      exact ⟨hfresh', htake.trans hacc, hwithin⟩
    | admitted t =>
      rw [hp] at htaken
      obtain ⟨hfresh, htook⟩ := htaken
      obtain ⟨hfresh', -, htake⟩ := fresh_consumer hstep hcons hfresh
      exact ⟨hfresh', htake ▸ htook⟩
    | copying t => exact absurd hp (hphase t)
    | refused r => trivial
    | unreachable t => trivial
    | panicked => trivial

theorem stream_inv_run {es : List StreamEvent} (h : Run (StreamSteps site) .init es s) :
    s.Inv site :=
  h.invariant (fun _ _ _ hs => stream_inv_step hs) (stream_inv_init site)

/-- **What a tunnel delivers.** The relay has taken one frame from the consumer's stream, which it
admits; the provider gets what comes after it, and the consumer what the provider writes. -/
theorem stream_carries {es : List StreamEvent} (h : Run (StreamSteps site) .init es s)
    {t : Tunnel} (ht : s.phase = .copying t) :
    ∃ f w, readFrom site.json ⟨s.copy.request.src.written, none⟩ = .ok (f, ⟨w, none⟩) ∧
      site.handler.acceptStream site.iroh site.state site.seen site.remote (.ok f) = .ok t ∧
      (s.copy.request.dst.written <+: w ∧
        (s.copy.request.loop = .ended true → s.copy.request.dst.written = w)) ∧
      s.copy.reply.dst.written <+: s.copy.reply.src.written ∧
        (s.copy.reply.loop = .ended true →
          s.copy.reply.dst.written = s.copy.reply.src.written) := by
  have hs := stream_inv_run h
  have htaken := hs.taken
  rw [ht] at htaken
  obtain ⟨⟨k, ⟨f, hread, hf⟩, hcarries⟩, -⟩ := htaken
  have hreply := hs.reply
  refine ⟨f, s.copy.request.src.written.drop k, ?_, hf,
    ⟨hcarries.written_prefix, fun hend => ?_⟩, hreply.written_prefix, fun hend => ?_⟩
  · have happ := Protocol.Frame.readFrom_append hread (s.copy.request.src.written.drop k)
    rwa [List.take_append_drop] at happ
  · unfold SideCarries at hcarries
    rw [hend] at hcarries
    exact hcarries.written_eq
  · unfold SideCarries at hreply
    rw [hend] at hreply
    exact hreply.written_eq

end Inv

end MeshlyCore.Relay
