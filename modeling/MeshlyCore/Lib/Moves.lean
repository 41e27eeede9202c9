import MeshlyCore.Lib.Pipe

/-!
# The two ends of a pipe

A pipe between two copy loops is the sink of one and the source of the other. Its writer only
appends and ends it, and its reader only reads on; so what either does at its end keeps what the
other carries.

`Copy.progress` counts what a loop has done. It grows with every step of the loop, and is bounded
by what was written to the source.
-/

namespace MeshlyCore.Streams

variable {α : Type*}

/-! ## Moves of one end -/

/-- The writer appends, and ends the pipe; after its end nothing is written. -/
structure WriterMoves (p p' : Pipe α) : Prop where
  read : p'.read = p.read
  written : p.written <+: p'.written
  ended : p.finished → p'.written = p.written ∧ p'.finished

/-- The reader reads on. -/
structure ReaderMoves (p p' : Pipe α) : Prop where
  written : p'.written = p.written
  finished : p'.finished = p.finished

namespace WriterMoves

variable {p p' : Pipe α}

theorem refl (p : Pipe α) : WriterMoves p p := ⟨rfl, List.prefix_rfl, fun h => ⟨rfl, h⟩⟩

theorem finish (p : Pipe α) : WriterMoves p p.finish :=
  ⟨rfl, List.prefix_rfl, fun _ => ⟨rfl, rfl⟩⟩

theorem write {xs : List α} (h : p.finished = false) : WriterMoves p (p.write xs) := by
  refine ⟨rfl, List.prefix_append _ _, fun hfin => ?_⟩
  rw [h] at hfin
  cases hfin

end WriterMoves

theorem ReaderMoves.refl (p : Pipe α) : ReaderMoves p p := ⟨rfl, rfl⟩

theorem ReaderMoves.take (p : Pipe α) (n : ℕ) : ReaderMoves p (p.take n) := ⟨rfl, rfl⟩

namespace Carries

variable {skip : ℕ} {src src' dst dst' : Pipe α} {l : Loop α}

/-- The writer of the source moves. -/
theorem of_writer (h : Carries skip src dst l) (hm : WriterMoves src src') :
    Carries skip src' dst l := by
  obtain ⟨xs, hxs⟩ := hm.written
  refine ⟨hm.read ▸ h.skip_le, ?_, ?_, fun hend => ?_⟩
  · rw [hm.read, ← hxs, List.length_append]
    exact h.read_le.trans (Nat.le_add_right _ _)
  · rw [hm.read, ← hxs, List.take_append_of_le_length h.read_le]
    exact h.carried
  · obtain ⟨hfin, hread⟩ := h.atEnd hend
    obtain ⟨hwritten, hfin'⟩ := hm.ended hfin
    exact ⟨hfin', by rw [hm.read, hread, hwritten]⟩

/-- The reader of the sink moves. -/
theorem of_reader (h : Carries skip src dst l) (hm : ReaderMoves dst dst') :
    Carries skip src dst' l :=
  h.of_written hm.written

end Carries

/-! ## Counting steps -/

/-- How far a loop is: granted, past the end of its source, or done. -/
def Loop.stage : Loop α → ℕ
  | .running _ granted eof => granted.toNat + 2 * eof.toNat
  | .ended _ => 4

/-- What the loop has read and written. A read may take back a grant, so it counts twice. -/
def Copy.progress (c : Copy α) : ℕ := 2 * c.src.read + c.dst.written.length + c.loop.stage

section Steps

variable [DecidableEq α] {m : Mode} {c c' : Copy α} {a : Act}

theorem Copy.reader_moves (h : c.next m a = some c') : ReaderMoves c.src c'.src := by
  obtain ⟨⟨l, n, out⟩, -, rfl⟩ := Option.map_eq_some_iff.1 h
  exact .take c.src n

theorem Copy.writer_moves (h : c.next m a = some c') (hopen : c.dst.finished = false) :
    WriterMoves c.dst c'.dst := by
  obtain ⟨⟨l, n, out⟩, -, rfl⟩ := Option.map_eq_some_iff.1 h
  exact .write hopen

/-- A loop that has ended stays where it is. -/
theorem Copy.running_of_next (h : c.next m a = some c') :
    ∃ held g eof, c.loop = .running held g eof := by
  obtain ⟨⟨l, n, out⟩, hl, -⟩ := Option.map_eq_some_iff.1 h
  rcases loop_cases hl with ⟨held, g, heq, -⟩ | ⟨held, g, heq, -⟩ | ⟨held, eof, heq, -⟩ |
      ⟨held, eof, k, heq, -⟩ | ⟨g, heq, -⟩
  · exact ⟨held, g, false, heq⟩
  · exact ⟨held, g, false, heq⟩
  · exact ⟨held, false, eof, heq⟩
  · exact ⟨held, true, eof, heq⟩
  · exact ⟨[], g, true, heq⟩

/-- A loop does not end its sink. -/
theorem Copy.finished_of_next (h : c.next m a = some c') : c'.dst.finished = c.dst.finished := by
  obtain ⟨⟨l, n, out⟩, -, rfl⟩ := Option.map_eq_some_iff.1 h
  rfl

/-- A loop does not fail by itself. -/
theorem Copy.loop_ne_failed (h : c.next m a = some c') : c'.loop ≠ .ended false := by
  obtain ⟨⟨l, n, out⟩, hl, rfl⟩ := Option.map_eq_some_iff.1 h
  rcases loop_cases hl with ⟨_, _, -, -, -, -, -, rfl, -⟩ | ⟨_, _, -, -, -, -, rfl, -⟩ |
      ⟨_, _, -, -, rfl, -⟩ | ⟨_, _, _, -, -, -, rfl, -⟩ | ⟨_, -, -, rfl, -⟩ <;> simp

end Steps

end MeshlyCore.Streams
