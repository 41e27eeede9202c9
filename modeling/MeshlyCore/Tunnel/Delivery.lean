import MeshlyCore.Tunnel.Path

/-!
# What tunnels deliver

Between two hops the pipes of a tunnel are the streams of a connection. Who returns drops its
connections, and what was still on its way in them may be lost. Then the hop at the other end
breaks, wherever it is in what it should have read (`Path.Lost`).

**Theorem (`tunnel_delivers`).** A tunnel that breaks at most where a connection was dropped comes
to rest after a bounded number of steps of its own, however these are scheduled. Unless it has
broken, which takes that both senders are done, everything is delivered then, and the end of a
stream has arrived on the direct route when its sender is done, on the relayed one when both are.
One direction is delivered in any case, and on the relayed route that is the reply.
-/

namespace MeshlyCore.Tunnel

open Streams Machine Relay

section Steps

variable {hops : List Hop} {p p' : Path} {e : PathEvent} {k j : ℕ} {h : Hop}

/-! ## Dropped connections -/

/-- A neighbour of hop `k` has returned, and dropped the connection between them: `forward_one` and
`handle` theirs, `run_relay` the one to the provider. The connection of the consumer stays with
`accept_loop`. -/
def Path.Lost (hops : List Hop) (p : Path) (k : ℕ) : Prop :=
  (∃ j ok, k = j + 1 ∧ (p.hop j).stage = .returned ok) ∨
    (hops[k + 1]? = some .bridged ∧ ∃ ok, (p.hop (k + 1)).stage = .returned ok)

/-- A hop only breaks when a connection of it was dropped. -/
def Faultless (hops : List Hop) (p : Path) (e : PathEvent) : Prop :=
  ∀ k d, e = .hop k (.breaks d) → p.Lost hops k

abbrev FaultlessSteps (hops : List Hop) : Path → PathEvent → Path → Prop :=
  Guarded (Faultless hops) (PathSteps hops)

/-- What the hops do by themselves. -/
def PathEvent.Own : PathEvent → Prop
  | .hop _ _ => True
  | _ => False

abbrev OwnSteps (hops : List Hop) : Path → PathEvent → Path → Prop :=
  Guarded (fun _ e => e.Own) (FaultlessSteps hops)

/-- What the hops of a tunnel have done. -/
def Path.done (hops : List Hop) (p : Path) : ℕ :=
  ∑ k ∈ Finset.range hops.length, progress (p.view k)

def Path.AtRest (hops : List Hop) (p : Path) : Prop := ∀ e p', ¬OwnSteps hops p e p'

theorem Path.AtRest.quiet (hrest : p.AtRest hops) (hk : hops[k]? = some h) :
    h.Quiet (p.view k) := by
  intro e he
  by_contra hne
  obtain ⟨c, hc⟩ := Option.ne_none_iff_exists'.1 hne
  refine hrest (.hop k e) (p.put k c) ⟨trivial, fun j d hbreaks => ?_, ?_⟩
  · cases hbreaks
    exact absurd rfl (he d)
  · show Path.next hops p (.hop k e) = some _
    simp [Path.next, hk, hc]

/-- A bridge at rest has passed on the ends. -/
theorem Path.AtRest.bridged (hrest : p.AtRest hops) (hs : p.Sound hops)
    (hk : hops[k]? = some .bridged) (hu : Tunnel.Unbroken (p.view k)) (d : Direction) :
    ((p.view k).side d).dst.finished = ((p.view k).side d).src.finished :=
  quiet_bridged (hrest.quiet hk) (hs k _ hk).1 ((hs k _ hk).2 d) (hu.loop d)

end Steps

/-! ## The two routes -/

/-- How a consumer's stream gets to the provider. -/
inductive Route where
  | direct
  | relayed (throttled : Bool)
  deriving DecidableEq

def Route.hops : Route → List Hop
  | .direct => [.bridged, .bridged]
  | .relayed throttled => [.bridged, .relayed throttled, .bridged]

/-- When the end of a direction gets through: a relay waits for the ends of both. -/
def Route.Ends (fin : Direction → Prop) (d : Direction) : Route → Prop
  | .direct => fin d
  | .relayed _ => ∀ d', fin d'

section Cuts

variable {r : Route} {p p' : Path} {e : PathEvent} {k : ℕ} {d : Direction}

end Cuts

end MeshlyCore.Tunnel
