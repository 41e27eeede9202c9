import Mathlib

/-!
# Outcomes of a fallible function

A Rust function that returns a `Result` has three ways to end: `Ok`, `Err`, and a panic. The
panic is kept apart from the errors because a caller sees the one as a value and never sees
the other. Indexing and slicing are the only source of panics here: `index` and `slice` check
their bounds exactly where the language does.
-/

namespace MeshlyCore

/-- How a call of type `Result<α, ε>` ends. -/
inductive Outcome (ε α : Type) where
  | ok (a : α)
  | err (e : ε)
  | panic
  deriving DecidableEq, Repr

namespace Outcome

variable {ε α β : Type}

protected def bind (x : Outcome ε α) (f : α → Outcome ε β) : Outcome ε β :=
  match x with
  | .ok a => f a
  | .err e => .err e
  | .panic => .panic

instance : Monad (Outcome ε) where
  pure := .ok
  bind := Outcome.bind

@[simp] theorem ok_bind (a : α) (f : α → Outcome ε β) : (Outcome.ok a >>= f) = f a := rfl

@[simp] theorem err_bind (e : ε) (f : α → Outcome ε β) :
    ((Outcome.err e : Outcome ε α) >>= f) = .err e := rfl

@[simp] theorem panic_bind (f : α → Outcome ε β) :
    ((Outcome.panic : Outcome ε α) >>= f) = .panic := rfl

/-- A bind panics in its first half, or in its second on the first half's result. -/
theorem bind_eq_panic {x : Outcome ε α} {f : α → Outcome ε β} :
    (x >>= f) = .panic ↔ x = .panic ∨ ∃ a, x = .ok a ∧ f a = .panic := by
  cases x <;> simp

/-- A bind returns what its second half makes of the first half's result. -/
theorem bind_eq_ok {x : Outcome ε α} {f : α → Outcome ε β} {b : β} :
    (x >>= f) = .ok b ↔ ∃ a, x = .ok a ∧ f a = .ok b := by
  cases x <;> simp

/-! ## Checked access -/

/-- `xs[i]`. -/
def index (xs : List α) (i : Nat) : Outcome ε α :=
  match xs[i]? with
  | some x => .ok x
  | none => .panic

/-- `xs[i..j]`. -/
def slice (xs : List α) (i j : Nat) : Outcome ε (List α) :=
  if i ≤ j ∧ j ≤ xs.length then .ok ((xs.drop i).take (j - i)) else .panic

theorem index_eq_ok {xs : List α} {i : Nat} {x : α} :
    (index xs i : Outcome ε α) = .ok x ↔ xs[i]? = some x := by
  unfold index
  cases xs[i]? <;> simp

theorem index_eq_panic {xs : List α} {i : Nat} :
    (index xs i : Outcome ε α) = .panic ↔ xs.length ≤ i := by
  unfold index
  rw [← List.getElem?_eq_none_iff]
  cases xs[i]? <;> simp

theorem index_of_lt {xs : List α} {i : Nat} (h : i < xs.length) :
    (index xs i : Outcome ε α) = .ok xs[i] := by
  rw [index_eq_ok, List.getElem?_eq_getElem h]

theorem slice_of_le {xs : List α} {i j : Nat} (hij : i ≤ j) (hj : j ≤ xs.length) :
    (slice xs i j : Outcome ε (List α)) = .ok ((xs.drop i).take (j - i)) :=
  if_pos ⟨hij, hj⟩

theorem slice_of_lt {xs : List α} {i j : Nat} (hj : xs.length < j) :
    (slice xs i j : Outcome ε (List α)) = .panic :=
  if_neg fun h => absurd h.2 (by omega)

theorem slice_eq_ok {xs ys : List α} {i j : Nat} :
    (slice xs i j : Outcome ε (List α)) = .ok ys ↔
      (i ≤ j ∧ j ≤ xs.length) ∧ (xs.drop i).take (j - i) = ys := by
  unfold slice
  split_ifs with h <;> simp [h]

/-- Slicing out the middle of three pieces. -/
theorem slice_append (xs zs : List α) {l ys : List α} {i j : Nat} (hl : l = xs ++ ys ++ zs)
    (hi : i = xs.length) (hj : j = xs.length + ys.length) :
    (slice l i j : Outcome ε (List α)) = .ok ys := by
  subst hl hi hj
  rw [slice_of_le (by omega) (by simp)]
  simp

end Outcome

end MeshlyCore
