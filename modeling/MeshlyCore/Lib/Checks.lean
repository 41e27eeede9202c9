import Mathlib

/-!
# Checks

A validation is a sequence of checks in `Except`, each of which ends it with an error or lets it
go on. What it accepts is the conjunction of what the checks ask for. A loop that looks for
duplicates carries the values it has seen, and accepts the lists that are `Fresh` for them.
-/

namespace MeshlyCore.Checks

variable {ε α β : Type}

theorem error_bind (e : ε) (f : α → Except ε β) :
    ((Except.error e : Except ε α) >>= f) = .error e := rfl

theorem then_eq_ok {x : Except ε Unit} {f : Unit → Except ε α} {a : α} :
    (x >>= f) = .ok a ↔ x = .ok () ∧ f () = .ok a := by
  cases x with
  | error e => simp [bind, Except.bind]
  | ok u => simp [bind, Except.bind]

theorem ite_error_eq_ok {p : Prop} [Decidable p] {e : ε} {x : Except ε α} {a : α} :
    (if p then .error e else x) = .ok a ↔ ¬p ∧ x = .ok a := by
  by_cases hp : p <;> simp [hp]

theorem mapError_eq_ok {ε' : Type} {x : Except ε α} {f : ε → ε'} {a : α} :
    x.mapError f = .ok a ↔ x = .ok a := by
  cases x <;> simp [Except.mapError]

/-- A loop over calls that all succeed collects their results. -/
theorem mapM_of_forall {f : α → Except ε β} {g : α → β} {xs : List α}
    (h : ∀ x ∈ xs, f x = .ok (g x)) : xs.mapM f = .ok (xs.map g) := by
  induction xs with
  | nil => rfl
  | cons x xs ih =>
    obtain ⟨hx, hxs⟩ := List.forall_mem_cons.1 h
    rw [List.mapM_cons, hx, ih hxs]
    rfl

/-- The values differ from each other and from those seen before. -/
def Fresh {α : Type*} (seen xs : List α) : Prop := xs.Nodup ∧ ∀ x ∈ xs, x ∉ seen

theorem fresh_nil {α : Type*} (seen : List α) : Fresh seen [] :=
  ⟨List.nodup_nil, fun _ hx => absurd hx List.not_mem_nil⟩

theorem fresh_cons {α : Type*} {seen xs : List α} {x : α} :
    Fresh seen (x :: xs) ↔ x ∉ seen ∧ Fresh (x :: seen) xs := by
  constructor
  · intro hleft
    obtain ⟨hnodup, hseen⟩ := hleft
    obtain ⟨hx, hxs⟩ := List.nodup_cons.1 hnodup
    refine ⟨hseen x List.mem_cons_self, hxs, fun y hy hmem => ?_⟩
    rcases List.mem_cons.1 hmem with rfl | hold
    · exact hx hy
    · exact hseen y (List.mem_cons_of_mem x hy) hold
  · intro hright
    obtain ⟨hx, hxs, hseen⟩ := hright
    refine ⟨List.nodup_cons.2 ⟨fun hmem => hseen x hmem List.mem_cons_self, hxs⟩, ?_⟩
    intro y hy hmem
    rcases List.mem_cons.1 hy with rfl | hy
    · exact hx hmem
    · exact hseen y hy (List.mem_cons_of_mem x hmem)

theorem fresh_empty {α : Type*} {xs : List α} : Fresh [] xs ↔ xs.Nodup :=
  ⟨And.left, fun h => ⟨h, fun _ _ => List.not_mem_nil⟩⟩

end MeshlyCore.Checks
