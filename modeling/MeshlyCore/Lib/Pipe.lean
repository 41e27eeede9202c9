import MeshlyCore.Lib.Machine

/-!
# Pipes and copy loops

A pipe is a reliable first-in-first-out stream: everything that was written to it, how much of
that was read, and whether its writer is done. A copy loop moves what it reads from one pipe to
another, through a buffer of bounded capacity. It may be gated: then it reads into an empty
buffer and has to be granted what it read before it may write it.

`Carries` is the law of conservation: what was read from the source is what was written to the
sink, and then what the loop holds. `catch_up` is progress: a loop that is still running can
always carry everything over that was written.
-/

namespace MeshlyCore.Streams

variable {α : Type*}

/-! ## Pipes -/

structure Pipe (α : Type*) where
  written : List α
  read : ℕ
  finished : Bool
  deriving DecidableEq

namespace Pipe

def empty : Pipe α := ⟨[], 0, false⟩

/-- What can be read. -/
def pending (p : Pipe α) : List α := p.written.drop p.read

def write (xs : List α) (p : Pipe α) : Pipe α := { p with written := p.written ++ xs }

def take (n : ℕ) (p : Pipe α) : Pipe α := { p with read := p.read + n }

def finish (p : Pipe α) : Pipe α := { p with finished := true }

theorem pending_take (p : Pipe α) (n : ℕ) : (p.take n).pending = p.pending.drop n := by
  simp [pending, take, List.drop_drop]

theorem take_read_take {p : Pipe α} {n : ℕ} :
    p.written.take (p.take n).read = p.written.take p.read ++ p.pending.take n :=
  List.take_add

end Pipe

/-! ## Copy loops -/

/-- How a loop copies: the size of its buffer, and whether it is gated. -/
structure Mode where
  capacity : ℕ
  gated : Bool
  deriving DecidableEq

inductive Loop (α : Type*) where
  /-- What is read and not yet written, whether it may be written, and whether the end of the
  source was seen. -/
  | running (held : List α) (granted eof : Bool)
  | ended (ok : Bool)
  deriving DecidableEq

def Loop.start : Loop α := .running [] false false

inductive Act where
  | read (n : ℕ)
  | eof
  | grant
  | write (n : ℕ)
  | flush
  deriving DecidableEq

/-- There is room for `n` more. -/
def Mode.Fits (m : Mode) (held : List α) (n : ℕ) : Prop :=
  if m.gated then held = [] ∧ n ≤ m.capacity else held.length + n ≤ m.capacity

instance [DecidableEq α] (m : Mode) (held : List α) (n : ℕ) : Decidable (m.Fits held n) :=
  inferInstanceAs (Decidable (if m.gated then _ else _))

/-- One step of a copy loop: the loop after it, how much it read from the source, and what it
wrote to the sink. -/
def Loop.next [DecidableEq α] (m : Mode) (src : Pipe α) :
    Loop α → Act → Option (Loop α × ℕ × List α)
  | .running held _ false, .read n =>
      if 0 < n ∧ n ≤ src.pending.length ∧ m.Fits held n then
        some (.running (held ++ src.pending.take n) (!m.gated) false, n, [])
      else none
  | .running held granted false, .eof =>
      if src.finished ∧ src.pending = [] ∧ (m.gated → held = []) then
        some (.running held granted true, 0, [])
      else none
  | .running held false eof, .grant =>
      if held ≠ [] then some (.running held true eof, 0, []) else none
  | .running held true eof, .write n =>
      if 0 < n ∧ n ≤ held.length then some (.running (held.drop n) true eof, 0, held.take n)
      else none
  | .running [] _ true, .flush => some (.ended true, 0, [])
  | _, _ => none

section Steps

variable [DecidableEq α] {m : Mode} {src dst : Pipe α} {l l' : Loop α} {a : Act} {n : ℕ}
  {out : List α}

/-- A loop reads, sees the end, is granted, writes, or is done. -/
theorem loop_cases (h : l.next m src a = some (l', n, out)) :
    (∃ held g, l = .running held g false ∧ a = .read n ∧ 0 < n ∧ n ≤ src.pending.length ∧
      m.Fits held n ∧ l' = .running (held ++ src.pending.take n) (!m.gated) false ∧ out = []) ∨
    (∃ held g, l = .running held g false ∧ a = .eof ∧ src.finished ∧ src.pending = [] ∧
      l' = .running held g true ∧ n = 0 ∧ out = []) ∨
    (∃ held eof, l = .running held false eof ∧ a = .grant ∧ l' = .running held true eof ∧
      n = 0 ∧ out = []) ∨
    (∃ held eof k, l = .running held true eof ∧ a = .write k ∧ k ≤ held.length ∧
      l' = .running (held.drop k) true eof ∧ n = 0 ∧ out = held.take k) ∨
    (∃ g, l = .running [] g true ∧ a = .flush ∧ l' = .ended true ∧ n = 0 ∧ out = []) := by
  unfold Loop.next at h
  split at h
  · split_ifs at h with hread
    cases h
    exact .inl ⟨_, _, rfl, rfl, hread.1, hread.2.1, hread.2.2, rfl, rfl⟩
  · split_ifs at h with heof
    cases h
    exact .inr (.inl ⟨_, _, rfl, rfl, heof.1, heof.2.1, rfl, rfl, rfl⟩)
  · split_ifs at h
    cases h
    exact .inr (.inr (.inl ⟨_, _, rfl, rfl, rfl, rfl, rfl⟩))
  · split_ifs at h with hwrite
    cases h
    exact .inr (.inr (.inr (.inl ⟨_, _, _, rfl, rfl, hwrite.2, rfl, rfl, rfl⟩)))
  · cases h
    exact .inr (.inr (.inr (.inr ⟨_, rfl, rfl, rfl, rfl, rfl⟩)))
  · cases h

end Steps

/-! ## Conservation -/

/-- What a loop has moved, against what it has written: the rest is in its hands, or lost when it
failed. -/
def Carried (moved written : List α) : Loop α → Prop
  | .running held _ _ => moved = written ++ held
  | .ended true => moved = written
  | .ended false => written <+: moved

def Loop.sawEnd : Loop α → Bool
  | .running _ _ eof => eof
  | .ended ok => ok

/-- The loop carries everything after the first `skip` elements of the source to the sink. -/
structure Carries (skip : ℕ) (src dst : Pipe α) (l : Loop α) : Prop where
  skip_le : skip ≤ src.read
  read_le : src.read ≤ src.written.length
  carried : Carried ((src.written.take src.read).drop skip) dst.written l
  atEnd : l.sawEnd → src.finished ∧ src.read = src.written.length

namespace Carries

variable {skip : ℕ} {src dst : Pipe α} {l : Loop α}

theorem start (hread : src.read = skip) (hlen : skip ≤ src.written.length)
    (hdst : dst.written = []) : Carries skip src dst .start := by
  refine ⟨hread.ge, hread ▸ hlen, ?_, by simp [Loop.start, Loop.sawEnd]⟩
  show _ = _ ++ []
  rw [hread, hdst, List.drop_take_self]
  rfl

/-- **What comes out went in**, in order. -/
theorem written_prefix (h : Carries skip src dst l) : dst.written <+: src.written.drop skip := by
  have hmoved : (src.written.take src.read).drop skip <+: src.written.drop skip :=
    (List.take_prefix _ _).drop skip
  have hcarried := h.carried
  cases l with
  | running held g eof =>
    refine List.IsPrefix.trans ?_ hmoved
    rw [show (src.written.take src.read).drop skip = dst.written ++ held from hcarried]
    exact List.prefix_append _ _
  | ended ok =>
    cases ok with
    | true =>
      rw [← show (src.written.take src.read).drop skip = dst.written from hcarried]
      exact hmoved
    | false => exact List.IsPrefix.trans hcarried hmoved

/-- A loop that ended well has carried everything. -/
theorem written_eq (h : Carries skip src dst (.ended true)) :
    dst.written = src.written.drop skip := by
  have hcarried : (src.written.take src.read).drop skip = dst.written := h.carried
  rw [← hcarried, (h.atEnd rfl).2, List.take_length]

/-- A loop with empty hands and nothing to read has carried everything so far. -/
theorem written_eq_of_idle {g eof : Bool} (h : Carries skip src dst (.running [] g eof))
    (hpend : src.pending = []) : dst.written = src.written.drop skip := by
  have hcarried : (src.written.take src.read).drop skip = dst.written ++ [] := h.carried
  have hall : src.written.length ≤ src.read := List.drop_eq_nil_iff.1 hpend
  rw [List.take_of_length_le hall, List.append_nil] at hcarried
  exact hcarried.symm

/-- A step of the loop. -/
theorem next [DecidableEq α] {m : Mode} {l' : Loop α} {a : Act} {n : ℕ} {out : List α}
    (h : Carries skip src dst l) (hnext : l.next m src a = some (l', n, out)) :
    Carries skip (src.take n) (dst.write out) l' := by
  rcases loop_cases hnext with ⟨held, g, rfl, -, -, hn, -, rfl, rfl⟩ |
      ⟨held, g, rfl, -, hfin, hpend, rfl, rfl, rfl⟩ | ⟨held, eof, rfl, -, rfl, rfl, rfl⟩ |
      ⟨held, eof, k, rfl, -, hk, rfl, rfl, rfl⟩ | ⟨g, rfl, -, rfl, rfl, rfl⟩
  · have hlen : src.pending.length = src.written.length - src.read := List.length_drop
    refine ⟨h.skip_le.trans (Nat.le_add_right _ _), ?_, ?_, by simp [Loop.sawEnd]⟩
    · show src.read + n ≤ src.written.length
      have := h.read_le
      omega
    · have hold : (src.written.take src.read).drop skip = dst.written ++ held := h.carried
      have hskip : skip ≤ (src.written.take src.read).length := by
        rw [List.length_take, min_eq_left h.read_le]
        exact h.skip_le
      show (src.written.take (src.take n).read).drop skip =
        (dst.written ++ []) ++ (held ++ src.pending.take n)
      rw [Pipe.take_read_take, List.drop_append_of_le_length hskip, hold, List.append_nil,
        List.append_assoc]
  · refine ⟨h.skip_le, h.read_le, ?_, fun _ => ⟨hfin, ?_⟩⟩
    · show (src.written.take src.read).drop skip = (dst.written ++ []) ++ held
      rw [List.append_nil]
      exact h.carried
    · exact le_antisymm h.read_le (List.drop_eq_nil_iff.1 hpend)
  · refine ⟨h.skip_le, h.read_le, ?_, h.atEnd⟩
    show (src.written.take src.read).drop skip = (dst.written ++ []) ++ held
    rw [List.append_nil]
    exact h.carried
  · refine ⟨h.skip_le, h.read_le, ?_, h.atEnd⟩
    show (src.written.take src.read).drop skip = (dst.written ++ held.take k) ++ held.drop k
    rw [List.append_assoc, List.take_append_drop]
    exact h.carried
  · refine ⟨h.skip_le, h.read_le, ?_, h.atEnd⟩
    show (src.written.take src.read).drop skip = dst.written ++ []
    exact h.carried

/-- The writer of the source writes. -/
theorem write (h : Carries skip src dst l) (hopen : src.finished = false) (xs : List α) :
    Carries skip (src.write xs) dst l := by
  refine ⟨h.skip_le, ?_, ?_, fun hend => ?_⟩
  · show src.read ≤ (src.written ++ xs).length
    rw [List.length_append]
    exact h.read_le.trans (Nat.le_add_right _ _)
  · show Carried (((src.written ++ xs).take src.read).drop skip) dst.written l
    rw [List.take_append_of_le_length h.read_le]
    exact h.carried
  · have := (h.atEnd hend).1
    rw [hopen] at this
    cases this

/-- The writer of the source is done. -/
theorem finish (h : Carries skip src dst l) : Carries skip src.finish dst l :=
  ⟨h.skip_le, h.read_le, h.carried, fun hend => ⟨rfl, (h.atEnd hend).2⟩⟩

/-- The reader of the sink, or the end of the sink, is of no concern to the loop. -/
theorem of_written (h : Carries skip src dst l) {dst' : Pipe α}
    (hdst : dst'.written = dst.written) : Carries skip src dst' l :=
  ⟨h.skip_le, h.read_le, hdst ▸ h.carried, h.atEnd⟩

/-- A loop that fails keeps what it has written. -/
theorem fail (h : Carries skip src dst l) : Carries skip src dst (.ended false) := by
  refine ⟨h.skip_le, h.read_le, ?_, by simp [Loop.sawEnd]⟩
  have hcarried := h.carried
  cases l with
  | running held g eof =>
    show dst.written <+: _
    rw [show (src.written.take src.read).drop skip = dst.written ++ held from hcarried]
    exact List.prefix_append _ _
  | ended ok =>
    cases ok with
    | true =>
      show dst.written <+: _
      rw [show (src.written.take src.read).drop skip = dst.written from hcarried]
    | false => exact hcarried

end Carries

/-! ## Progress -/

/-- A loop between its pipes. -/
structure Copy (α : Type*) where
  src : Pipe α
  dst : Pipe α
  loop : Loop α

def Copy.next [DecidableEq α] (m : Mode) (c : Copy α) (a : Act) : Option (Copy α) :=
  (c.loop.next m c.src a).map fun (l, n, out) => ⟨c.src.take n, c.dst.write out, l⟩

/-- The loop has nothing to read and nothing to write: it waits for the writer of its source. -/
def Copy.Waits (c : Copy α) : Prop :=
  (∃ g, c.loop = .running [] g false) ∧ c.src.pending = [] ∧ c.src.finished = false

theorem fits_one {m : Mode} (hcap : 0 < m.capacity) : m.Fits ([] : List α) 1 := by
  unfold Mode.Fits
  split
  · exact ⟨rfl, hcap⟩
  · rw [List.length_nil, Nat.zero_add]
    exact hcap

section Progress

variable [DecidableEq α] {m : Mode}

open Machine

theorem next_eq_none_of_waits {c : Copy α} (h : c.Waits) (a : Act) : c.next m a = none := by
  obtain ⟨⟨g, hloop⟩, hpend, hopen⟩ := h
  cases hnext : c.next m a with
  | none => rfl
  | some c' =>
    obtain ⟨⟨l, n, out⟩, hl, -⟩ := Option.map_eq_some_iff.1 hnext
    rw [hloop] at hl
    rcases loop_cases hl with ⟨_, _, _, _, hn, hle, _⟩ | ⟨_, _, _, _, hfin, _⟩ |
        ⟨_, _, heq, ha, _⟩ | ⟨_, _, k, heq, ha, _⟩ | ⟨_, heq, _⟩
    · rw [hpend] at hle
      exact absurd hle (Nat.not_le.2 hn)
    · rw [hopen] at hfin
      cases hfin
    · cases heq
      cases ha
      simp [Loop.next] at hl
    · cases heq
      cases ha
      simp only [Loop.next, List.length_nil] at hl
      split_ifs at hl with hk
      omega
    · cases heq

/-- A running loop that does not wait has a step. -/
theorem exists_next (hcap : 0 < m.capacity) {c : Copy α} {held : List α} {g eof : Bool}
    (hrun : c.loop = .running held g eof) (hwaits : ¬c.Waits) : ∃ a c', c.next m a = some c' := by
  obtain ⟨src, dst, l⟩ := c
  obtain rfl : l = .running held g eof := hrun
  cases held with
  | cons x xs =>
    cases g with
    | false => exact ⟨.grant, _, by simp [Copy.next, Loop.next]; rfl⟩
    | true => exact ⟨.write 1, _, by simp [Copy.next, Loop.next]; rfl⟩
  | nil =>
    cases eof with
    | true => exact ⟨.flush, _, by simp [Copy.next, Loop.next]; rfl⟩
    | false =>
      cases hpend : src.pending with
      | cons x xs =>
        exact ⟨.read 1, _, by simp [Copy.next, Loop.next, hpend, fits_one (α := α) hcap]; rfl⟩
      | nil =>
        cases hfin : src.finished with
        | true => exact ⟨.eof, _, by simp [Copy.next, Loop.next, hpend, hfin]; rfl⟩
        | false => exact absurd ⟨⟨g, rfl⟩, hpend, hfin⟩ hwaits

/-- A loop with empty hands moves one element. -/
theorem carry_one (hcap : 0 < m.capacity) {src : Pipe α} (dst : Pipe α) (g : Bool) {x : α}
    {xs : List α} (hpend : src.pending = x :: xs) :
    ∃ acts, Run (stepOf (Copy.next m)) ⟨src, dst, .running [] g false⟩ acts
      ⟨src.take 1, dst.write [x], .running [] true false⟩ := by
  have hfits : m.Fits ([] : List α) 1 := fits_one hcap
  have hread : Copy.next m ⟨src, dst, .running [] g false⟩ (.read 1) =
      some ⟨src.take 1, dst.write [], .running [x] (!m.gated) false⟩ := by
    simp [Copy.next, Loop.next, hpend, hfits]
  have hwrite : ∀ d : Pipe α, Copy.next m ⟨src.take 1, d.write [], .running [x] true false⟩
      (.write 1) = some ⟨src.take 1, d.write [x], .running [] true false⟩ := by
    intro d
    simp [Copy.next, Loop.next, Pipe.write, Pipe.take]
  cases hg : m.gated with
  | false =>
    rw [hg] at hread
    exact ⟨_, .cons hread (.cons (hwrite dst) (.nil _))⟩
  | true =>
    rw [hg] at hread
    have hgrant : Copy.next m ⟨src.take 1, dst.write [], .running [x] false false⟩ .grant =
        some ⟨src.take 1, dst.write [], .running [x] true false⟩ := by
      simp [Copy.next, Loop.next, Pipe.write, Pipe.take]
    exact ⟨_, .cons hread (.cons hgrant (.cons (hwrite dst) (.nil _)))⟩

/-- **A running loop catches up** with all that was written to its source. -/
theorem catch_up (hcap : 0 < m.capacity) (src dst : Pipe α) (g : Bool) :
    ∃ acts g', Run (stepOf (Copy.next m)) ⟨src, dst, .running [] g false⟩ acts
      ⟨src.take src.pending.length, dst.write src.pending, .running [] g' false⟩ := by
  induction hpend : src.pending generalizing src dst g with
  | nil =>
    refine ⟨[], g, ?_⟩
    have hdst : dst.write [] = dst := by simp [Pipe.write]
    rw [hdst]
    exact .nil _
  | cons x xs ih =>
    obtain ⟨acts, hone⟩ := carry_one hcap dst g hpend
    have htail : (src.take 1).pending = xs := by rw [Pipe.pending_take, hpend]; rfl
    obtain ⟨acts', g', hrest⟩ := ih (src.take 1) (dst.write [x]) true htail
    refine ⟨acts ++ acts', g', hone.append ?_⟩
    convert hrest using 2
    · simp [Pipe.take, Nat.add_comm, Nat.add_left_comm]
    · simp [Pipe.write]

/-- A running loop empties its hands. -/
theorem empty_hands (src dst : Pipe α) (held : List α) (g : Bool) :
    ∃ acts g', Run (stepOf (Copy.next m)) ⟨src, dst, .running held g false⟩ acts
      ⟨src, dst.write held, .running [] g' false⟩ := by
  have hsrc : src.take 0 = src := by simp [Pipe.take]
  have hdst : dst.write [] = dst := by simp [Pipe.write]
  cases held with
  | nil =>
    refine ⟨[], g, ?_⟩
    rw [hdst]
    exact .nil _
  | cons x xs =>
    have hwrite : Copy.next m ⟨src, dst, .running (x :: xs) true false⟩ (.write (xs.length + 1)) =
        some ⟨src, dst.write (x :: xs), .running [] true false⟩ := by
      simp [Copy.next, Loop.next, hsrc]
    cases g with
    | true => exact ⟨_, true, .cons hwrite (.nil _)⟩
    | false =>
      have hgrant : Copy.next m ⟨src, dst, .running (x :: xs) false false⟩ .grant =
          some ⟨src, dst, .running (x :: xs) true false⟩ := by
        simp [Copy.next, Loop.next, hsrc, hdst]
      exact ⟨_, true, .cons hgrant (.cons hwrite (.nil _))⟩

/-- **A running loop comes to wait** for its source, which stays as it is. -/
theorem settles (hcap : 0 < m.capacity) {c : Copy α} {held : List α} {g : Bool}
    (hrun : c.loop = .running held g false) :
    ∃ acts c', Run (stepOf (Copy.next m)) c acts c' ∧ (∃ g', c'.loop = .running [] g' false) ∧
      c'.src.pending = [] ∧ c'.src.finished = c.src.finished := by
  obtain ⟨src, dst, l⟩ := c
  obtain rfl : l = .running held g false := hrun
  obtain ⟨acts, g₁, hempty⟩ := empty_hands src dst held g
  obtain ⟨acts', g₂, hcatch⟩ := catch_up (m := m) hcap src (dst.write held) g₁
  refine ⟨acts ++ acts', _, hempty.append hcatch, ⟨g₂, rfl⟩, ?_, rfl⟩
  show (src.take src.pending.length).pending = []
  rw [Pipe.pending_take, List.drop_length]

end Progress

/-! ## Peers

A peer at its end of a connection writes, reads, or moves by itself. What a read gives it is part
of the action, so that a peer is a step function. -/

inductive PeerAct (α ι : Type*) where
  | writes (xs : List α)
  | reads (xs : List α)
  | moves (i : ι)
  deriving DecidableEq

/-- The pipe gives these elements next. -/
def Pipe.Offers (p : Pipe α) (xs : List α) : Prop := xs <+: p.pending

instance [DecidableEq α] (p : Pipe α) (xs : List α) : Decidable (p.Offers xs) :=
  inferInstanceAs (Decidable (xs <+: p.pending))

/-- Two peers, with a pipe there and a pipe back between them. -/
structure Direct (α σ τ : Type*) where
  near : σ
  far : τ
  there : Pipe α
  back : Pipe α
  deriving DecidableEq

section Direct

variable [DecidableEq α] {σ τ ι κ : Type*} (nearNext : σ → PeerAct α ι → Option σ)
  (farNext : τ → PeerAct α κ → Option τ)

def Direct.next (d : Direct α σ τ) : PeerAct α ι ⊕ PeerAct α κ → Option (Direct α σ τ)
  | .inl a => (nearNext d.near a).bind fun near =>
      match a with
      | .writes xs => some { d with near, there := d.there.write xs }
      | .reads xs =>
          if d.back.Offers xs then some { d with near, back := d.back.take xs.length } else none
      | .moves _ => some { d with near }
  | .inr a => (farNext d.far a).bind fun far =>
      match a with
      | .writes xs => some { d with far, back := d.back.write xs }
      | .reads xs =>
          if d.there.Offers xs then some { d with far, there := d.there.take xs.length } else none
      | .moves _ => some { d with far }

variable {nearNext farNext} {d : Direct α σ τ} {xs : List α}

theorem Direct.next_near_reads {near : σ} (h : nearNext d.near (.reads xs) = some near)
    (hoffers : d.back.Offers xs) :
    d.next nearNext farNext (.inl (.reads xs)) =
      some { d with near, back := d.back.take xs.length } := by
  simp [Direct.next, h, hoffers]

theorem Direct.next_far_reads {far : τ} (h : farNext d.far (.reads xs) = some far)
    (hoffers : d.there.Offers xs) :
    d.next nearNext farNext (.inr (.reads xs)) =
      some { d with far, there := d.there.take xs.length } := by
  simp [Direct.next, h, hoffers]

end Direct

end MeshlyCore.Streams
