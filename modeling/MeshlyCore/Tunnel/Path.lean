import MeshlyCore.Tunnel.Bridge

/-!
# Tunnels

What a consumer's application and a provider's backend have between them: a bridge at each end,
and on the relayed route the relay in the middle. Each pipe of a tunnel is the sink of one hop and
the source of the next one, so a tunnel is its pipes and what the hops are doing; the hops are those
of `MeshlyCore.Tunnel.Bridge`, and only move at their own ends. The pipes begin where the handshake
has ended.

**Theorem (`tunnel_carries`).** Whatever happens, what comes out of a tunnel is a prefix of what
went in; and unless a hop breaks, the end of the stream comes out only after all of it.
-/

namespace MeshlyCore.Tunnel

open Streams Machine Relay

/-- What a hop is doing. -/
structure HopState where
  request : Loop UInt8
  reply : Loop UInt8
  stage : Stage

/-- Hop `k` reads the request from `there k` and writes it to `there (k + 1)`, and brings the reply
from `back (k + 1)` to `back k`. -/
structure Path where
  there : ℕ → Pipe UInt8
  back : ℕ → Pipe UInt8
  hop : ℕ → HopState

inductive PathEvent where
  | hop (k : ℕ) (e : HopEvent)
  /-- The sender of a direction writes, or is done; its receiver reads. -/
  | writes (d : Direction) (bytes : Bytes)
  | finishes (d : Direction)
  | reads (d : Direction) (n : ℕ)
  deriving DecidableEq

/-- What the sender of a direction writes. -/
def PathEvent.wrote (d : Direction) : PathEvent → Bytes
  | .writes d' bytes => if d' = d then bytes else []
  | _ => []

namespace Path

def start : Path := ⟨fun _ => .empty, fun _ => .empty, fun _ => ⟨.start, .start, .joining⟩⟩

/-- Hop `k` with its four ends. -/
def view (k : ℕ) (p : Path) : Copying where
  request := ⟨p.there k, p.there (k + 1), (p.hop k).request⟩
  reply := ⟨p.back (k + 1), p.back k, (p.hop k).reply⟩
  stage := (p.hop k).stage

def put (k : ℕ) (c : Copying) (p : Path) : Path where
  there := Function.update (Function.update p.there k c.request.src) (k + 1) c.request.dst
  back := Function.update (Function.update p.back k c.reply.dst) (k + 1) c.reply.src
  hop := Function.update p.hop k ⟨c.request.loop, c.reply.loop, c.stage⟩

/-- Where the sender of a direction writes. -/
def source (hops : List Hop) (p : Path) : Direction → Pipe UInt8
  | .request => p.there 0
  | .reply => p.back hops.length

/-- Where its receiver reads. -/
def sink (hops : List Hop) (p : Path) : Direction → Pipe UInt8
  | .request => p.there hops.length
  | .reply => p.back 0

def setSource (hops : List Hop) (s : Pipe UInt8) (p : Path) : Direction → Path
  | .request => { p with there := Function.update p.there 0 s }
  | .reply => { p with back := Function.update p.back hops.length s }

def setSink (hops : List Hop) (s : Pipe UInt8) (p : Path) : Direction → Path
  | .request => { p with there := Function.update p.there hops.length s }
  | .reply => { p with back := Function.update p.back 0 s }

def next (hops : List Hop) (p : Path) : PathEvent → Option Path
  | .hop k e => hops[k]?.bind fun h => (h.next (p.view k) e).map fun c => p.put k c
  | .writes d bytes =>
      let s := p.source hops d
      if s.finished then none else some (p.setSource hops (s.write bytes) d)
  | .finishes d => some (p.setSource hops (p.source hops d).finish d)
  | .reads d n =>
      let s := p.sink hops d
      if n ≤ s.pending.length then some (p.setSink hops (s.take n) d) else none

end Path

abbrev PathSteps (hops : List Hop) : Path → PathEvent → Path → Prop := stepOf (Path.next hops)

/-! ## One hop moves, or none -/

section Steps

variable {hops : List Hop} {p p' : Path} {e : PathEvent} {k j : ℕ} {h : Hop}

theorem view_put (c : Copying) : (p.put k c).view k = c := by
  obtain ⟨⟨rs, rd, rl⟩, ⟨ps, pd, pl⟩, stage⟩ := c
  simp [Path.view, Path.put]

/-- Hop `j` stays as it is, while its neighbours move at the far ends of its pipes. -/
structure Calm (j : ℕ) (p p' : Path) : Prop where
  src : ∀ d, WriterMoves ((p.view j).side d).src ((p'.view j).side d).src
  dst : ∀ d, ReaderMoves ((p.view j).side d).dst ((p'.view j).side d).dst
  hop : p'.hop j = p.hop j

theorem Calm.loop (hc : Calm j p p') (d : Direction) :
    ((p'.view j).side d).loop = ((p.view j).side d).loop := by
  cases d
  · exact congrArg HopState.request hc.hop
  · exact congrArg HopState.reply hc.hop

/-- Another hop's move is calm. -/
theorem calm_put {c : Copying} (hj : j ≠ k)
    (hends : ∀ d, ReaderMoves ((p.view k).side d).src (c.side d).src ∧
      WriterMoves ((p.view k).side d).dst (c.side d).dst) : Calm j p (p.put k c) := by
  have hreq := hends .request
  have hrep := hends .reply
  have hhop : (p.put k c).hop j = p.hop j := Function.update_of_ne hj _ _
  -- The pipes of `j` that are not at `k` are the same.
  have hthere : ∀ i, i ≠ k → i ≠ k + 1 → (p.put k c).there i = p.there i := by
    intro i hi hi'
    exact (Function.update_of_ne hi' _ _).trans (Function.update_of_ne hi _ _)
  have hback : ∀ i, i ≠ k → i ≠ k + 1 → (p.put k c).back i = p.back i := by
    intro i hi hi'
    exact (Function.update_of_ne hi' _ _).trans (Function.update_of_ne hi _ _)
  have hthere' : (p.put k c).there (k + 1) = c.request.dst := Function.update_self ..
  have hback' : (p.put k c).back (k + 1) = c.reply.src := Function.update_self ..
  have hthere₀ : (p.put k c).there k = c.request.src := congrArg (·.request.src) (view_put c)
  have hback₀ : (p.put k c).back k = c.reply.dst := congrArg (·.reply.dst) (view_put c)
  refine ⟨fun d => ?_, fun d => ?_, hhop⟩
  · cases d with
    | request =>
      show WriterMoves (p.there j) ((p.put k c).there j)
      by_cases hjk : j = k + 1
      · subst hjk
        rw [hthere']
        exact hreq.2
      · rw [hthere j hj hjk]
        exact .refl _
    | reply =>
      show WriterMoves (p.back (j + 1)) ((p.put k c).back (j + 1))
      by_cases hjk : j + 1 = k
      · rw [hjk, hback₀]
        exact hrep.2
      · rw [hback _ hjk (by omega)]
        exact .refl _
  · cases d with
    | request =>
      show ReaderMoves (p.there (j + 1)) ((p.put k c).there (j + 1))
      by_cases hjk : j + 1 = k
      · rw [hjk, hthere₀]
        exact hreq.1
      · rw [hthere _ hjk (by omega)]
        exact .refl _
    | reply =>
      show ReaderMoves (p.back j) ((p.put k c).back j)
      by_cases hjk : j = k + 1
      · subst hjk
        rw [hback']
        exact hrep.1
      · rw [hback j hj hjk]
        exact .refl _

theorem writerMoves_update {f : ℕ → Pipe UInt8} {a i : ℕ} {s : Pipe UInt8}
    (h : i = a → WriterMoves (f i) s) : WriterMoves (f i) (Function.update f a s i) := by
  by_cases hi : i = a
  · rw [hi, Function.update_self]
    exact hi ▸ h hi
  · rw [Function.update_of_ne hi]
    exact .refl _

theorem readerMoves_update {f : ℕ → Pipe UInt8} {a i : ℕ} {s : Pipe UInt8}
    (h : i = a → ReaderMoves (f i) s) : ReaderMoves (f i) (Function.update f a s i) := by
  by_cases hi : i = a
  · rw [hi, Function.update_self]
    exact hi ▸ h hi
  · rw [Function.update_of_ne hi]
    exact .refl _

/-- The sender of a direction moves. -/
theorem calm_setSource (hj : j < hops.length) {d : Direction} {s : Pipe UInt8}
    (hs : WriterMoves (p.source hops d) s) : Calm j p (p.setSource hops s d) := by
  cases d with
  | request =>
    refine ⟨fun d => ?_, fun d => ?_, rfl⟩
    · cases d with
      | request => exact writerMoves_update fun hj0 => hj0 ▸ hs
      | reply => exact .refl _
    · cases d with
      | request => exact readerMoves_update (s := s) fun hj0 => absurd hj0 (Nat.succ_ne_zero j)
      | reply => exact .refl _
  | reply =>
    refine ⟨fun d => ?_, fun d => ?_, rfl⟩
    · cases d with
      | request => exact .refl _
      | reply => exact writerMoves_update fun hjn => hjn ▸ hs
    · cases d with
      | request => exact .refl _
      | reply => exact readerMoves_update (s := s) fun hjn => absurd hjn (Nat.ne_of_lt hj)

/-- The receiver of a direction moves. -/
theorem calm_setSink (hj : j < hops.length) {d : Direction} {s : Pipe UInt8}
    (hs : ReaderMoves (p.sink hops d) s) : Calm j p (p.setSink hops s d) := by
  cases d with
  | request =>
    refine ⟨fun d => ?_, fun d => ?_, rfl⟩
    · cases d with
      | request => exact writerMoves_update (s := s) fun hjn => absurd hjn (Nat.ne_of_lt hj)
      | reply => exact .refl _
    · cases d with
      | request => exact readerMoves_update fun hjn => hjn ▸ hs
      | reply => exact .refl _
  | reply =>
    refine ⟨fun d => ?_, fun d => ?_, rfl⟩
    · cases d with
      | request => exact .refl _
      | reply => exact writerMoves_update (s := s) fun hj0 => absurd hj0 (Nat.succ_ne_zero j)
    · cases d with
      | request => exact .refl _
      | reply => exact readerMoves_update fun hj0 => hj0 ▸ hs

/-- What happens at the ends of a tunnel is calm for every hop. -/
theorem calm_ends (hj : j < hops.length) (he : ∀ k e', e ≠ .hop k e')
    (hstep : PathSteps hops p e p') : Calm j p p' := by
  have hnext : p.next hops e = some p' := hstep
  cases e with
  | hop k e' => exact absurd rfl (he k e')
  | writes d bytes =>
    simp only [Path.next] at hnext
    split_ifs at hnext with hfin
    obtain rfl := Option.some.inj hnext
    exact calm_setSource hj (.write (by simpa using hfin))
  | finishes d =>
    obtain rfl := Option.some.inj hnext
    exact calm_setSource hj (.finish _)
  | reads d n =>
    simp only [Path.next] at hnext
    split_ifs at hnext
    obtain rfl := Option.some.inj hnext
    exact calm_setSink hj (.take _ n)

/-! ## The invariant -/

/-- Every hop is sound, and carries. -/
def Path.Sound (hops : List Hop) (p : Path) : Prop :=
  ∀ k h, hops[k]? = some h → h.Sound (p.view k) ∧ ∀ d, SideCarries 0 ((p.view k).side d)

/-- **A step of a tunnel** is a step of one hop, and calm for the others. -/
theorem path_step (hstep : PathSteps hops p e p') (hs : p.Sound hops) (hj : hops[j]? = some h) :
    (∃ e', e = .hop j e' ∧ h.next (p.view j) e' = some (p'.view j)) ∨ Calm j p p' := by
  have hlt : j < hops.length := (List.getElem?_eq_some_iff.1 hj).1
  cases e with
  | hop k e' =>
    obtain ⟨h', hk, hnext⟩ := Option.bind_eq_some_iff.1 hstep
    obtain ⟨c, hc, rfl⟩ := Option.map_eq_some_iff.1 hnext
    by_cases hjk : j = k
    · subst hjk
      rw [hj] at hk
      obtain rfl := Option.some.inj hk
      exact .inl ⟨e', rfl, by rw [view_put, hc]⟩
    · exact .inr (calm_put hjk (hop_ends hc (hs k h' hk).1))
  | _ => exact .inr (calm_ends hlt (by simp) hstep)

theorem path_sound (hstep : PathSteps hops p e p') (hs : p.Sound hops) : p'.Sound hops := by
  intro j h hj
  obtain ⟨hsound, hcarries⟩ := hs j h hj
  rcases path_step hstep hs hj with ⟨e', -, hnext⟩ | hcalm
  · exact ⟨hop_sound hnext hsound, fun d => hop_carries hnext d (hcarries d)⟩
  · refine ⟨hsound.congr (congrArg HopState.stage hcalm.hop) hcalm.loop ?_, fun d => ?_⟩
    · exact fun d => (hcalm.dst d).finished
    · have hc := (hcarries d).of_writer (hcalm.src d)
      unfold SideCarries
      rw [hcalm.loop d]
      exact hc.of_reader (hcalm.dst d)

theorem path_sound_start (hops : List Hop) : Path.start.Sound hops := by
  intro k h _
  refine ⟨?_, fun d => ?_⟩
  · cases h with
    | bridged =>
      intro d
      refine ⟨fun hfin => ?_, fun hne => absurd rfl hne⟩
      cases d <;> cases hfin
    | relayed throttled => exact inOrder_start .empty
  · cases d <;> exact Carries.start rfl le_rfl rfl

/-! ## From end to end -/

/-- What holds across every hop holds between the source of a direction and all of its pipes. -/
theorem across_there {R : Pipe UInt8 → Pipe UInt8 → Prop} (hrefl : ∀ s, R s s)
    (htrans : ∀ s t u, R s t → R t u → R s u)
    (hhop : ∀ k h, hops[k]? = some h →
      R ((p.view k).side .request).src ((p.view k).side .request).dst)
    (hk : k ≤ hops.length) : R (p.source hops .request) (p.there k) := by
  induction k with
  | zero => exact hrefl _
  | succ k ih =>
    have hone := hhop k hops[k] (List.getElem?_eq_getElem hk)
    exact htrans _ _ _ (ih (by omega)) hone

theorem across_back {R : Pipe UInt8 → Pipe UInt8 → Prop} (hrefl : ∀ s, R s s)
    (htrans : ∀ s t u, R s t → R t u → R s u)
    (hhop : ∀ k h, hops[k]? = some h →
      R ((p.view k).side .reply).src ((p.view k).side .reply).dst)
    (hk : k ≤ hops.length) : R (p.source hops .reply) (p.back k) := by
  have hback : ∀ i, i ≤ hops.length → R (p.back hops.length) (p.back (hops.length - i)) := by
    intro i hi
    induction i with
    | zero => exact hrefl _
    | succ i ih =>
      have hlt : hops.length - (i + 1) < hops.length := by omega
      have hone := hhop _ hops[hops.length - (i + 1)] (List.getElem?_eq_getElem hlt)
      have hsucc : hops.length - (i + 1) + 1 = hops.length - i := by omega
      simp only [Path.view, Copying.side, hsucc] at hone
      exact htrans _ _ _ (ih (by omega)) hone
  have hsub := hback (hops.length - k) (Nat.sub_le _ _)
  rwa [Nat.sub_sub_self hk] at hsub

theorem across_ends {R : Pipe UInt8 → Pipe UInt8 → Prop} (hrefl : ∀ s, R s s)
    (htrans : ∀ s t u, R s t → R t u → R s u) {d : Direction}
    (hhop : ∀ k h, hops[k]? = some h → R ((p.view k).side d).src ((p.view k).side d).dst) :
    R (p.source hops d) (p.sink hops d) := by
  cases d with
  | request => exact across_there hrefl htrans hhop le_rfl
  | reply => exact across_back hrefl htrans hhop (Nat.zero_le _)

theorem Path.Sound.prefix_across (hs : p.Sound hops) (hk : k ≤ hops.length) :
    (p.there k).written <+: (p.source hops .request).written ∧
      (p.back k).written <+: (p.source hops .reply).written := by
  have hhop : ∀ d k h, hops[k]? = some h →
      ((p.view k).side d).dst.written <+: ((p.view k).side d).src.written :=
    fun d k h hk => Carries.written_prefix ((hs k h hk).2 d)
  constructor
  · exact across_there (R := fun s t => t.written <+: s.written) (fun _ => List.prefix_rfl)
      (fun _ _ _ hst htu => htu.trans hst) (hhop .request) hk
  · exact across_back (R := fun s t => t.written <+: s.written) (fun _ => List.prefix_rfl)
      (fun _ _ _ hst htu => htu.trans hst) (hhop .reply) hk

theorem Path.Sound.written_prefix (hs : p.Sound hops) (d : Direction) :
    (p.sink hops d).written <+: (p.source hops d).written := by
  cases d with
  | request => exact (hs.prefix_across le_rfl).1
  | reply => exact (hs.prefix_across (Nat.zero_le _)).2

/-- No hop has broken. -/
def Path.Unbroken (hops : List Hop) (p : Path) : Prop :=
  ∀ k h, hops[k]? = some h → Tunnel.Unbroken (p.view k)

theorem unbroken_step (hstep : PathSteps hops p e p') (hs : p.Sound hops)
    (hj : hops[j]? = some h) (he : ∀ d, e ≠ .hop j (.breaks d))
    (hu : Tunnel.Unbroken (p.view j)) : Tunnel.Unbroken (p'.view j) := by
  rcases path_step hstep hs hj with ⟨e', rfl, hnext⟩ | hcalm
  · exact hop_unbroken hnext (fun d hd => he d (hd ▸ rfl)) hu
  · refine ⟨fun d => ?_, ?_⟩
    · rw [hcalm.loop d]
      exact hu.loop d
    · have hstage : (p'.view j).stage = (p.view j).stage := congrArg HopState.stage hcalm.hop
      rw [hstage]
      exact hu.stage

theorem path_unbroken (hstep : PathSteps hops p e p') (hs : p.Sound hops)
    (he : ∀ k d, e ≠ .hop k (.breaks d)) (hu : p.Unbroken hops) : p'.Unbroken hops :=
  fun j h hj => unbroken_step hstep hs hj (he j) (hu j h hj)

theorem path_unbroken_start (hops : List Hop) : Path.start.Unbroken hops := by
  intro k h _
  refine ⟨fun d => ?_, by simp [Path.view, Path.start]⟩
  cases d <;> simp [Path.view, Path.start, Copying.side, Loop.start]

/-- The end of a stream comes out after all of it. -/
theorem Path.Sound.of_finished (hs : p.Sound hops) (hu : p.Unbroken hops) (d : Direction)
    (hfin : (p.sink hops d).finished) :
    (p.sink hops d).written = (p.source hops d).written ∧ (p.source hops d).finished := by
  refine across_ends (R := fun s t => t.finished → t.written = s.written ∧ s.finished)
    (fun _ ht => ⟨rfl, ht⟩) ?_ (fun k h hk hend => ?_) hfin
  · intro s t u hst htu hu
    obtain ⟨hut, ht⟩ := htu hu
    obtain ⟨hts, hs⟩ := hst ht
    exact ⟨hut.trans hts, hs⟩
  · exact ((hs k h hk).1.done (hu k h hk) hend).carried ((hs k h hk).2 d)

/-! ## What goes in -/

theorem source_put {c : Copying} (hk : hops[k]? = some h)
    (hends : ∀ d, ReaderMoves ((p.view k).side d).src (c.side d).src) (d : Direction) :
    ReaderMoves (p.source hops d) ((p.put k c).source hops d) := by
  have hlt : k < hops.length := (List.getElem?_eq_some_iff.1 hk).1
  cases d with
  | request =>
    have hthere : (p.put k c).there 0 = Function.update p.there k c.request.src 0 :=
      Function.update_of_ne (Nat.succ_ne_zero k).symm c.request.dst _
    show ReaderMoves (p.there 0) ((p.put k c).there 0)
    rw [hthere]
    exact readerMoves_update fun h0 => h0 ▸ hends .request
  | reply =>
    show ReaderMoves (p.back hops.length) ((p.put k c).back hops.length)
    by_cases hn : hops.length = k + 1
    · have hback : (p.put k c).back (k + 1) = c.reply.src := Function.update_self ..
      rw [hn, hback]
      exact hends .reply
    · have hback : (p.put k c).back hops.length = p.back hops.length :=
        (Function.update_of_ne hn _ _).trans (Function.update_of_ne hlt.ne' _ _)
      rw [hback]
      exact .refl _

/-- The source of a direction is what its sender writes, and is ended by it. -/
theorem source_step (hstep : PathSteps hops p e p') (hs : p.Sound hops) (d : Direction) :
    (p'.source hops d).written = (p.source hops d).written ++ e.wrote d ∧
      ((p'.source hops d).finished ↔ (p.source hops d).finished ∨ .finishes d = e) := by
  have hnext : p.next hops e = some p' := hstep
  cases e with
  | hop k e' =>
    obtain ⟨h, hk, hnext'⟩ := Option.bind_eq_some_iff.1 hnext
    obtain ⟨c, hc, rfl⟩ := Option.map_eq_some_iff.1 hnext'
    have hreads := source_put hk (fun d => (hop_ends hc (hs k h hk).1 d).1) d
    rw [hreads.written, hreads.finished]
    simp [PathEvent.wrote]
  | writes d' bytes =>
    simp only [Path.next] at hnext
    split_ifs at hnext
    obtain rfl := Option.some.inj hnext
    cases d <;> cases d' <;> simp [Path.setSource, Path.source, PathEvent.wrote, Pipe.write]
  | finishes d' =>
    obtain rfl := Option.some.inj hnext
    cases d <;> cases d' <;> simp [Path.setSource, Path.source, PathEvent.wrote, Pipe.finish]
  | reads d' n =>
    simp only [Path.next] at hnext
    split_ifs at hnext
    obtain rfl := Option.some.inj hnext
    have hreads : ReaderMoves (p.source hops d)
        ((p.setSink hops ((p.sink hops d').take n) d').source hops d) := by
      cases d <;> cases d'
      · exact readerMoves_update fun h0 => by
          rw [h0]
          exact .take _ n
      · exact .refl _
      · exact .refl _
      · exact readerMoves_update fun h0 => by
          rw [h0]
          exact .take _ n
    rw [hreads.written, hreads.finished]
    simp [PathEvent.wrote]

/-- **A run of a tunnel**, and what has gone in. -/
theorem path_run {es : List PathEvent} (hrun : Run (PathSteps hops) p es p')
    (hs : p.Sound hops) :
    p'.Sound hops ∧ ∀ d, (p'.source hops d).written =
        (p.source hops d).written ++ es.flatMap (·.wrote d) ∧
      ((p'.source hops d).finished ↔ (p.source hops d).finished ∨ .finishes d ∈ es) := by
  induction hrun with
  | nil p => exact ⟨hs, fun d => by simp⟩
  | cons hstep _ ih =>
    obtain ⟨hs', hsource⟩ := ih (path_sound hstep hs)
    refine ⟨hs', fun d => ?_⟩
    obtain ⟨hwritten, hfin⟩ := source_step hstep hs d
    obtain ⟨hwritten', hfin'⟩ := hsource d
    rw [hwritten', hwritten, hfin', hfin]
    simp only [List.flatMap_cons, List.append_assoc, List.mem_cons, or_assoc, true_and]

theorem path_run_unbroken {es : List PathEvent} (hrun : Run (PathSteps hops) p es p')
    (hs : p.Sound hops) (hu : p.Unbroken hops) (hes : ∀ k d, .hop k (.breaks d) ∉ es) :
    p'.Unbroken hops := by
  induction hrun with
  | nil p => exact hu
  | cons hstep _ ih =>
    refine ih (path_sound hstep hs) (path_unbroken hstep hs ?_ hu) fun k d hmem => ?_
    · exact fun k d he => hes k d (he ▸ List.mem_cons_self)
    · exact hes k d (List.mem_cons_of_mem _ hmem)

/-- **Whatever happens in a tunnel**, what comes out of it is a prefix of what went in; and unless a
hop breaks, the end of the stream comes out only after all of it, when its sender is done. -/
theorem tunnel_carries {es : List PathEvent} (hrun : Run (PathSteps hops) .start es p)
    (d : Direction) :
    (p.sink hops d).written <+: es.flatMap (·.wrote d) ∧
      ((∀ k d', .hop k (.breaks d') ∉ es) → (p.sink hops d).finished →
        (p.sink hops d).written = es.flatMap (·.wrote d) ∧ .finishes d ∈ es) := by
  obtain ⟨hs, hsource⟩ := path_run hrun (path_sound_start hops)
  obtain ⟨hwritten, hends⟩ := hsource d
  have hempty : (Path.start.source hops d).written = [] := by cases d <;> rfl
  have hopen : (Path.start.source hops d).finished = false := by cases d <;> rfl
  rw [hempty, List.nil_append] at hwritten
  rw [← hwritten]
  refine ⟨hs.written_prefix d, fun hes hfin => ?_⟩
  have hu := path_run_unbroken hrun (path_sound_start hops) (path_unbroken_start hops) hes
  obtain ⟨hall, hdone⟩ := hs.of_finished hu d hfin
  refine ⟨hall, ?_⟩
  simpa [hopen] using hends.1 hdone

/-- Two bytes and their end, over two bridges. -/
def greeting : List PathEvent :=
  [.writes .request [104, 105], .finishes .request] ++ [0, 1].flatMap fun k =>
    [.hop k (.copy .request (.read 2)), .hop k (.copy .request (.write 2)),
      .hop k (.copy .request .eof), .hop k (.copy .request .flush), .hop k (.shut .request)]

theorem tunnel_carries_greeting : ∃ p, Run (PathSteps [.bridged, .bridged]) .start greeting p ∧
    (p.sink [.bridged, .bridged] .request).written = [104, 105] := by
  obtain ⟨p, hp, hfin⟩ : ∃ p, exec (Path.next [.bridged, .bridged]) .start greeting = some p ∧
      (p.sink [.bridged, .bridged] .request).finished := ⟨_, rfl, rfl⟩
  have hrun := run_of_exec hp
  exact ⟨p, hrun, ((tunnel_carries hrun .request).2 (by simp [greeting]) hfin).1⟩

end Steps

end MeshlyCore.Tunnel
