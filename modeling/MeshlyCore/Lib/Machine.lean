import Mathlib

/-!
# Runs of a transition system

A transition system is a relation `step s a t`: in state `s`, action `a` leads to `t`. The
action names every choice the environment makes, so that a run is its list of actions.
`Guarded` restricts a system to the steps that meet a condition; an invariant of the
restricted system is an invariant of every run whose steps all meet it.
-/

namespace MeshlyCore.Machine

variable {σ α : Type*}

/-- `Run step s as t`: from `s`, the actions `as` lead to `t`. -/
inductive Run (step : σ → α → σ → Prop) : σ → List α → σ → Prop
  | nil (s : σ) : Run step s [] s
  | cons {s t u : σ} {a : α} {as : List α} : step s a t → Run step t as u → Run step s (a :: as) u

namespace Run

variable {step : σ → α → σ → Prop}

/-- **The invariant rule.** -/
theorem invariant {P : σ → Prop} (hstep : ∀ s a t, step s a t → P s → P t) {s t : σ}
    {as : List α} (h : Run step s as t) (h0 : P s) : P t := by
  induction h with
  | nil s => exact h0
  | cons hs _ ih => exact ih (hstep _ _ _ hs h0)

theorem append {s t u : σ} {as bs : List α} (h₁ : Run step s as t) (h₂ : Run step t bs u) :
    Run step s (as ++ bs) u := by
  induction h₁ with
  | nil s => exact h₂
  | cons hs _ ih => exact .cons hs (ih h₂)

theorem snoc {s t u : σ} {a : α} {as : List α} (h : Run step s as t) (hs : step t a u) :
    Run step s (as ++ [a]) u :=
  h.append (.cons hs (.nil u))

theorem mono {step' : σ → α → σ → Prop} (hle : ∀ s a t, step s a t → step' s a t) {s t : σ}
    {as : List α} (h : Run step s as t) : Run step' s as t := by
  induction h with
  | nil s => exact .nil s
  | cons hs _ ih => exact .cons (hle _ _ _ hs) ih

/-- **The simulation rule**: if every step is matched by a run of another system, so is every
run. -/
theorem simulates {τ β : Type*} {step' : τ → β → τ → Prop} {R : σ → τ → Prop}
    (hstep : ∀ s a t s', step s a t → R s s' → ∃ bs t', Run step' s' bs t' ∧ R t t') {s t : σ}
    {as : List α} (h : Run step s as t) {s' : τ} (h0 : R s s') :
    ∃ bs t', Run step' s' bs t' ∧ R t t' := by
  induction h generalizing s' with
  | nil s => exact ⟨[], s', .nil s', h0⟩
  | cons hs _ ih =>
    obtain ⟨bs, u', hbs, hu⟩ := hstep _ _ _ _ hs h0
    obtain ⟨cs, t', hcs, ht⟩ := ih hu
    exact ⟨bs ++ cs, t', hbs.append hcs, ht⟩

/-- Induction on a run from its end: the hypothesis knows the run so far. -/
@[elab_as_elim]
theorem snoc_induction {s : σ} {motive : List α → σ → Prop} (nil : motive [] s)
    (snoc : ∀ as t a u, Run step s as t → motive as t → step t a u → motive (as ++ [a]) u)
    {t : σ} {as : List α} (h : Run step s as t) : motive as t := by
  have key : ∀ (bs : List α) (u : σ), Run step s bs u → motive bs u → ∀ (cs : List α) (v : σ),
      Run step u cs v → motive (bs ++ cs) v := by
    intro bs u hb hm cs v hc
    induction hc generalizing bs with
    | nil u => rwa [List.append_nil]
    | cons hs _ ih =>
      have := ih _ (hb.snoc hs) (snoc _ _ _ _ hb hm hs)
      rwa [List.append_assoc, List.singleton_append] at this
  exact key [] s (.nil s) nil as t h

end Run

/-- The steps of a system that meet a condition on the state before them and the action. -/
def Guarded (guard : σ → α → Prop) (step : σ → α → σ → Prop) (s : σ) (a : α) (t : σ) : Prop :=
  guard s a ∧ step s a t

/-- A run that keeps `P` is a guarded run if its actions meet the condition wherever `P`
holds. -/
theorem Run.guarded_of_invariant {P : σ → Prop} {guard : σ → α → Prop} {step : σ → α → σ → Prop}
    {s t : σ} {as : List α} (h : Run step s as t)
    (hstep : ∀ a ∈ as, ∀ u v, step u a v → P u → P v) (hg : ∀ a ∈ as, ∀ u, P u → guard u a)
    (h0 : P s) : Run (Guarded guard step) s as t := by
  induction h with
  | nil s => exact .nil s
  | cons hs _ ih =>
    refine .cons ⟨hg _ List.mem_cons_self _ h0, hs⟩ (ih ?_ ?_ ?_)
    · exact fun a ha => hstep a (List.mem_cons_of_mem _ ha)
    · exact fun a ha => hg a (List.mem_cons_of_mem _ ha)
    · exact hstep _ List.mem_cons_self _ _ hs h0

/-- A run whose actions all meet a condition in every state is a guarded run. -/
theorem Run.guarded {guard : σ → α → Prop} {step : σ → α → σ → Prop} {s t : σ} {as : List α}
    (h : Run step s as t) (hg : ∀ a ∈ as, ∀ u, guard u a) : Run (Guarded guard step) s as t :=
  h.guarded_of_invariant (P := fun _ => True) (fun _ _ _ _ _ _ => trivial)
    (fun a ha u _ => hg a ha u) trivial

/-- A condition that a step meets just when it keeps `P`: the runs that meet it are the runs
with `P` in every state. -/
theorem Run.guarded_iff {P : σ → Prop} {guard : σ → α → Prop} {step : σ → α → σ → Prop}
    (hstep : ∀ s a t, step s a t → P s → (guard s a ↔ P t)) {s t : σ} {as : List α} (h0 : P s) :
    (Run (Guarded (fun s _ => P s) step) s as t ∧ P t) ↔ Run (Guarded guard step) s as t := by
  constructor
  · intro h
    obtain ⟨hrun, ht⟩ := h
    induction hrun with
    | nil s => exact .nil s
    | @cons s u t a as hs hrest ih =>
      have hu : P u := by
        cases hrest with
        | nil => exact ht
        | cons hs' _ => exact hs'.1
      exact .cons ⟨(hstep _ _ _ hs.2 h0).2 hu, hs.2⟩ (ih hu ht)
  · intro h
    induction h with
    | nil s => exact ⟨.nil s, h0⟩
    | @cons s u t a as hs _ ih =>
      have hu : P u := (hstep _ _ _ hs.2 h0).1 hs.1
      exact ⟨.cons ⟨h0, hs.2⟩ (ih hu).1, (ih hu).2⟩

/-! ## What came last

A property that some steps establish, others end, and the rest leave alone holds or not by which of
them came last. -/

section Since

variable {step : σ → α → σ → Prop} {p q : σ → α → Prop} {P : σ → Prop} {s t u : σ} {a : α}
  {as : List α}

/-- A step of kind `p` was taken, and none of kind `q` since. -/
def Since (step : σ → α → σ → Prop) (p q : σ → α → Prop) (s : σ) (as : List α) (t : σ) : Prop :=
  ∃ as₁ u a v as₂, as = as₁ ++ a :: as₂ ∧ Run step s as₁ u ∧ p u a ∧ step u a v ∧
    Run (Guarded (fun u b => ¬q u b) step) v as₂ t

/-- No step of kind `p` was taken, or one of kind `q` since. -/
def Lapsed (step : σ → α → σ → Prop) (p q : σ → α → Prop) (s : σ) (as : List α) (t : σ) : Prop :=
  Run (Guarded (fun u b => ¬p u b) step) s as t ∨ Since step q p s as t

theorem Since.snoc (h : Since step p q s as t) (hq : ¬q t a) (hs : step t a u) :
    Since step p q s (as ++ [a]) u := by
  obtain ⟨as₁, u₁, b, v, as₂, rfl, hrun, hp, hstep, hrest⟩ := h
  exact ⟨as₁, u₁, b, v, as₂ ++ [a], by rw [List.append_assoc, List.cons_append], hrun, hp, hstep,
    hrest.snoc ⟨hq, hs⟩⟩

theorem Lapsed.snoc (h : Lapsed step p q s as t) (hp : ¬p t a) (hs : step t a u) :
    Lapsed step p q s (as ++ [a]) u :=
  h.imp (fun hrun => hrun.snoc ⟨hp, hs⟩) fun hsince => hsince.snoc hp hs

end Since

/-! ## Systems that come to rest -/

section Rest

variable {step : σ → α → σ → Prop} {P : σ → Prop} {f : σ → ℕ} {bound : ℕ}

/-- What grows with every step bounds a run. -/
theorem Run.length_le (hstep : ∀ s a t, step s a t → P s → P t ∧ f s < f t) {s t : σ}
    {as : List α} (h : Run step s as t) (h0 : P s) : P t ∧ f s + as.length ≤ f t := by
  induction h with
  | nil s => exact ⟨h0, le_rfl⟩
  | cons hs _ ih =>
    obtain ⟨hu, hlt⟩ := hstep _ _ _ hs h0
    obtain ⟨ht, hle⟩ := ih hu
    rw [List.length_cons]
    exact ⟨ht, by omega⟩

/-- What shrinks with every step bounds a run, too. -/
theorem Run.length_le_of_shrinks (hstep : ∀ s a t, step s a t → P s → P t ∧ f t < f s) {s t : σ}
    {as : List α} (h : Run step s as t) (h0 : P s) : P t ∧ f t + as.length ≤ f s := by
  induction h with
  | nil s => exact ⟨h0, le_rfl⟩
  | cons hs _ ih =>
    obtain ⟨hu, hlt⟩ := hstep _ _ _ hs h0
    obtain ⟨ht, hle⟩ := ih hu
    rw [List.length_cons]
    exact ⟨ht, by omega⟩

/-- And it lets a system come to rest. -/
theorem exists_rest_of_shrinks (hstep : ∀ s a t, step s a t → P s → P t ∧ f t < f s) (s : σ)
    (h0 : P s) : ∃ as t, Run step s as t ∧ ∀ a u, ¬step t a u := by
  induction hn : f s using Nat.strong_induction_on generalizing s with
  | _ n ih =>
    by_cases hrest : ∀ a u, ¬step s a u
    · exact ⟨[], s, .nil s, hrest⟩
    · push Not at hrest
      obtain ⟨a, u, hs⟩ := hrest
      obtain ⟨hu, hlt⟩ := hstep s a u hs h0
      obtain ⟨as, t, hrun, ht⟩ := ih (f u) (by omega) u hu rfl
      exact ⟨a :: as, t, .cons hs hrun, ht⟩

/-- **The budget rule**: what every step of a kind uses up, and every step of another kind refills
by `k`, bounds the steps of the first kind. -/
theorem Run.countP_le {p q : α → Bool} {k : ℕ}
    (hstep : ∀ s a t, step s a t → f t + (p a).toNat ≤ f s + k * (q a).toNat) {s t : σ}
    {as : List α} (h : Run step s as t) : f t + as.countP p ≤ f s + k * as.countP q := by
  induction h with
  | nil s => exact le_rfl
  | @cons s u t a as hs _ ih =>
    have hone := hstep _ _ _ hs
    have hcount : ∀ r : α → Bool, (a :: as).countP r = as.countP r + (r a).toNat := by
      intro r
      rw [List.countP_cons]
      cases r a <;> rfl
    rw [hcount p, hcount q, Nat.mul_add]
    omega

end Rest

/-! ## Executable systems -/

/-- The relation of a step function. -/
def stepOf (next : σ → α → Option σ) (s : σ) (a : α) (t : σ) : Prop := next s a = some t

/-- Run a step function over a list of actions. -/
def exec (next : σ → α → Option σ) : σ → List α → Option σ
  | s, [] => some s
  | s, a :: as => (next s a).bind fun t => exec next t as

theorem run_of_exec {next : σ → α → Option σ} {s t : σ} {as : List α}
    (h : exec next s as = some t) : Run (stepOf next) s as t := by
  induction as generalizing s with
  | nil =>
    obtain rfl := Option.some.inj h
    exact .nil s
  | cons a as ih =>
    obtain ⟨u, hu, hrest⟩ := Option.bind_eq_some_iff.1 h
    exact .cons hu (ih hrest)

/-! ## Families of parties

Many parties of a kind are a function from their numbers to what is known of each; a step of one
of them updates it. -/

section Families

variable {ι β : Type*} [DecidableEq ι] {f : ι → Option β} {i j : ι}

theorem update_eq_some {o : Option β} {x : β} :
    Function.update f i o j = some x ↔ (j = i ∧ o = some x) ∨ (j ≠ i ∧ f j = some x) := by
  by_cases hj : j = i
  · subst hj
    simp
  · simp [hj]

/-- The party is the one that moved, or another one. -/
theorem of_update_eq_some {x y : β} (h : Function.update f i (some x) j = some y) :
    (j = i ∧ y = x) ∨ (j ≠ i ∧ f j = some y) :=
  (update_eq_some.1 h).imp_left fun hself => ⟨hself.1, (Option.some.inj hself.2).symm⟩

/-- If no two parties are in conflict, and the one that moves is in conflict with no other, then no
two are afterwards. -/
theorem update_apart (R : β → β → Prop) (hsymm : ∀ x y, R x y → R y x) {x : β}
    (hmoved : ∀ k y, f k = some y → R x y → i = k)
    (hapart : ∀ j k y z, f j = some y → f k = some z → R y z → j = k) {k : ι} {y z : β}
    (hj : Function.update f i (some x) j = some y) (hk : Function.update f i (some x) k = some z)
    (hR : R y z) : j = k := by
  rcases of_update_eq_some hj with ⟨rfl, rfl⟩ | ⟨-, hj'⟩
  · rcases of_update_eq_some hk with ⟨rfl, -⟩ | ⟨-, hk'⟩
    · rfl
    · exact hmoved k z hk' hR
  · rcases of_update_eq_some hk with ⟨rfl, rfl⟩ | ⟨-, hk'⟩
    · exact (hmoved j y hj' (hsymm y z hR)).symm
    · exact hapart j k y z hj' hk' hR

end Families

/-! ## What an observer sees

An observer of part of the state is told of some of the steps, by a label. If the part moves by
the labels alone, then two runs with the same labels look the same. -/

/-- The labels of a list of actions. -/
def observe {ℓ : Type*} (next : σ → α → Option σ) (label : σ → α → Option ℓ) :
    σ → List α → List ℓ
  | _, [] => []
  | s, a :: as => (label s a).toList ++ ((next s a).map fun t => observe next label t as).getD []

theorem observe_append {ℓ : Type*} {next : σ → α → Option σ} {label : σ → α → Option ℓ} {s t : σ}
    {as : List α} (h : Run (stepOf next) s as t) (bs : List α) :
    observe next label s (as ++ bs) = observe next label s as ++ observe next label t bs := by
  induction h with
  | nil s => rfl
  | @cons s u t a as hs _ ih =>
    have hnext : next s a = some u := hs
    rw [List.cons_append, observe, observe, hnext, Option.map_some, Option.map_some,
      Option.getD_some, Option.getD_some, ih, List.append_assoc]

/-- **The observer's rule**: what is in a relation to a state, and stays so when it moves by the
labels of a step, is so after a run. -/
theorem observe_run {β ℓ : Type*} {next : σ → α → Option σ} {label : σ → α → Option ℓ}
    {step : σ → α → σ → Prop} {R : σ → β → Prop} {react : β → ℓ → β}
    (hnext : ∀ s a t, step s a t → next s a = some t)
    (hstep : ∀ s a t v, step s a t → R s v → R t ((label s a).toList.foldl react v))
    {s t : σ} {as : List α} (h : Run step s as t) {v : β} (h0 : R s v) :
    R t ((observe next label s as).foldl react v) := by
  induction h generalizing v with
  | nil s => exact h0
  | @cons s u t a as hs _ ih =>
    rw [observe, hnext s a u hs, Option.map_some, Option.getD_some, List.foldl_append]
    exact ih (hstep s a u v hs h0)

/-- The rule for an observer that keeps everything. -/
theorem observed_run {ℓ : Type*} {next : σ → α → Option σ} {label : σ → α → Option ℓ}
    {R : σ → List ℓ → Prop}
    (hstep : ∀ s a t v, stepOf next s a t → R s v → R t (v ++ (label s a).toList)) {s t : σ}
    {as : List α} (h : Run (stepOf next) s as t) {v : List ℓ} (h0 : R s v) :
    R t (v ++ observe next label s as) := by
  induction h generalizing v with
  | nil s => rwa [observe, List.append_nil]
  | @cons s u t a as hs _ ih =>
    have hnext : next s a = some u := hs
    rw [observe, hnext, Option.map_some, Option.getD_some, ← List.append_assoc]
    exact ih (hstep s a u v hs h0)

theorem view_run {β ℓ : Type*} {next : σ → α → Option σ} {label : σ → α → Option ℓ}
    {P : σ → Prop} {view : σ → β} {react : β → ℓ → β}
    (hP : ∀ s a t, stepOf next s a t → P s → P t)
    (hview : ∀ s a t, stepOf next s a t → P s →
      view t = (label s a).toList.foldl react (view s))
    {s t : σ} {as : List α} (h : Run (stepOf next) s as t) (h0 : P s) :
    view t = (observe next label s as).foldl react (view s) := by
  refine (observe_run (R := fun s v => P s ∧ view s = v) (fun _ _ _ hs => hs) ?_ h ⟨h0, rfl⟩).2
  rintro s a u v hs ⟨hp, rfl⟩
  exact ⟨hP s a u hs hp, hview s a u hs hp⟩

end MeshlyCore.Machine
