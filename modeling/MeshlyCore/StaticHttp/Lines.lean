import MeshlyCore.StaticHttp.Splits

/-!
# Lines with a limit

`read_until_limited` of `static_http.rs` collects pieces of a stream in a buffer until it has seen
a delimiter. The limit is checked in two places, with the delimiter in the piece at hand and
without, and both before the buffer grows.

**Theorem (`limited_lines`).** For every stream, cut in any way: the line up to the first delimiter
is returned, and nothing more is consumed, exactly when the delimiter is among the first `max`
bytes; the end of the file is reported exactly for an empty stream; everything else is an error;
and the buffer never holds more than `max` bytes.
-/

namespace MeshlyCore.StaticHttp

/-- A stream that comes in these pieces, up to the end of the file. -/
def Reader.ofChunks (chunks : List Chunk) : Reader := chunks.foldr .chunk .eof

theorem Reader.atEof_ofChunks (chunks : List Chunk) : (ofChunks chunks).AtEof := by
  induction chunks with
  | nil => trivial
  | cons c chunks ih => exact ih

theorem Reader.bytes_ofChunks (chunks : List Chunk) :
    (ofChunks chunks).bytes = (chunks.map Subtype.val).flatten := by
  induction chunks with
  | nil => rfl
  | cons c chunks ih => exact congrArg (c.val ++ ·) ih

/-! ## The buffer -/

/-- The loop of `read_until_limited` with a log of what `buf` holds. -/
def readUntilLogged (delim : UInt8) (max : ℕ) (buf : Bytes) :
    Reader → List Bytes × Except HttpError (Option Bytes × Reader)
  | .eof => ([buf], if buf = [] then .ok (none, .eof) else .error .closedMidLine)
  | .failed => ([buf], .error .io)
  | .chunk c rest =>
      match c.val.findIdx? (· == delim) with
      | some pos =>
          if buf.length + (pos + 1) > max then ([buf], .error (.lineTooLong max))
          else
            ([buf, buf ++ c.val.take (pos + 1)],
              .ok (some (buf ++ c.val.take (pos + 1)), rest.push (c.val.drop (pos + 1))))
      | none =>
          if buf.length + c.val.length > max then ([buf], .error (.lineTooLong max))
          else
            let (log, res) := readUntilLogged delim max (buf ++ c.val) rest
            (buf :: log, res)

theorem readUntilLogged_snd (delim : UInt8) (max : ℕ) (buf : Bytes) (r : Reader) :
    (readUntilLogged delim max buf r).2 = readUntilLoop delim max buf r := by
  induction r generalizing buf with
  | eof => rfl
  | failed => rfl
  | chunk c rest ih =>
    simp only [readUntilLogged, readUntilLoop]
    cases c.val.findIdx? (· == delim) with
    | some pos =>
      dsimp only
      split_ifs <;> rfl
    | none =>
      dsimp only
      split_ifs
      · rfl
      · exact ih (buf ++ c.val)

/-- The limit is checked before the buffer grows. -/
theorem length_readUntilLogged {delim : UInt8} {max : ℕ} {buf : Bytes} (hbuf : buf.length ≤ max)
    (r : Reader) : ∀ b ∈ (readUntilLogged delim max buf r).1, b.length ≤ max := by
  induction r generalizing buf with
  | eof => simpa [readUntilLogged] using hbuf
  | failed => simpa [readUntilLogged] using hbuf
  | chunk c rest ih =>
    simp only [readUntilLogged]
    cases hfind : c.val.findIdx? (· == delim) with
    | some pos =>
      have hlt : pos + 1 ≤ c.val.length := (List.findIdx?_eq_some_iff_findIdx_eq.1 hfind).1
      dsimp only
      split_ifs with hlong
      · simpa using hbuf
      · intro b hb
        rcases List.mem_cons.1 hb with rfl | hb
        · exact hbuf
        · rw [List.mem_singleton.1 hb, List.length_append, List.length_take]
          omega
    | none =>
      dsimp only
      split_ifs with hlong
      · simpa using hbuf
      · intro b hb
        rcases List.mem_cons.1 hb with rfl | hb
        · exact hbuf
        · exact ih (by rw [List.length_append]; omega) b hb

/-! ## The line -/

theorem Reader.atEof_drop {r : Reader} (h : r.AtEof) (n : ℕ) : (r.drop n).AtEof := by
  induction r generalizing n with
  | eof => trivial
  | failed => exact h
  | chunk c rest ih =>
    rw [drop]
    split_ifs
    · exact (atEof_push _ rest).2 h
    · exact ih h _

theorem findIdx?_line {delim : UInt8} {line : Bytes} (h : delim ∉ line) (after : Bytes) :
    (line ++ delim :: after).findIdx? (· == delim) = some line.length := by
  have hnone : line.findIdx? (· == delim) = none := by
    rw [List.findIdx?_eq_none_iff]
    intro b hb
    simpa using ne_of_mem_of_not_mem hb h
  rw [List.findIdx?_append, hnone, Option.none_or, List.findIdx?_cons]
  simp

theorem mem_take_line {delim : UInt8} {line : Bytes} (h : delim ∉ line) (after : Bytes) (max : ℕ) :
    delim ∈ (line ++ delim :: after).take max ↔ line.length < max := by
  rw [List.take_append, List.mem_append]
  constructor
  · rintro (hmem | hmem)
    · exact absurd (List.mem_of_mem_take hmem) h
    · by_contra hle
      rw [Nat.sub_eq_zero_of_le (Nat.le_of_not_lt hle), List.take_zero] at hmem
      cases hmem
  · intro hlt
    obtain ⟨k, hk⟩ : ∃ k, max - line.length = k + 1 := ⟨max - line.length - 1, by omega⟩
    rw [hk, List.take_succ_cons]
    exact .inr List.mem_cons_self

/-- How a limited read ends, and when. -/
inductive LimitedRead (delim : UInt8) (max : ℕ) (stream : Bytes) :
    Except HttpError (Option Bytes × Reader) → Prop
  | line {line after : Bytes} {r : Reader} (split : stream = line ++ delim :: after)
      (first : delim ∉ line) (fits : delim ∈ stream.take max) (rest : r.bytes = after)
      (eof : r.AtEof) : LimitedRead delim max stream (.ok (some (line ++ [delim]), r))
  | eof (empty : stream = []) : LimitedRead delim max stream (.ok (none, .eof))
  | refused {e : HttpError} (missing : delim ∉ stream.take max) (some : stream ≠ []) :
      LimitedRead delim max stream (.error e)

theorem eq_error_of_toOption {ε α : Type} {x : Except ε α} (h : x.toOption = none) :
    ∃ e, x = .error e := by
  cases x with
  | error e => exact ⟨e, rfl⟩
  | ok a => cases h

theorem eq_ok_of_toOption {ε α : Type} {x : Except ε α} {a : α} (h : x.toOption = some a) :
    x = .ok a := by
  cases x with
  | error e => cases h
  | ok b => exact congrArg Except.ok (Option.some.inj h)

theorem limitedRead (delim : UInt8) (max : ℕ) {r : Reader} (hr : r.AtEof) :
    LimitedRead delim max r.bytes (readUntilLimited delim max r) := by
  by_cases hmem : delim ∈ r.bytes
  · obtain ⟨line, after, hsplit, hfirst⟩ := List.eq_append_cons_of_mem hmem
    have hfind : r.bytes.findIdx? (· == delim) = some line.length := by
      rw [hsplit]
      exact findIdx?_line hfirst after
    have hread := readUntilLoop_toOption delim max [] r hfind
    have htake := mem_take_line hfirst after max
    rw [← hsplit] at htake
    rw [List.length_nil, Nat.zero_add] at hread
    split_ifs at hread with hlong
    · obtain ⟨e, he⟩ := eq_error_of_toOption hread
      rw [readUntilLimited, he]
      exact .refused (fun h => absurd (htake.1 h) (by omega)) (List.ne_nil_of_mem hmem)
    · have hline : [] ++ r.bytes.take (line.length + 1) = line ++ [delim] := by
        rw [List.nil_append, hsplit, List.take_append, List.take_of_length_le (by omega),
          Nat.add_sub_cancel_left]
        rfl
      have hafter : (r.drop (line.length + 1)).bytes = after := by
        rw [Reader.bytes_drop, hsplit, List.drop_append, List.drop_eq_nil_of_le (by omega),
          Nat.add_sub_cancel_left]
        rfl
      rw [readUntilLimited, eq_ok_of_toOption hread, hline]
      exact .line hsplit hfirst (htake.2 (by omega)) hafter (Reader.atEof_drop hr _)
  · have hfind : r.bytes.findIdx? (· == delim) = none := by
      rw [List.findIdx?_eq_none_iff]
      intro b hb
      simpa using ne_of_mem_of_not_mem hb hmem
    by_cases hempty : r.bytes = []
    · rw [Reader.eq_eof hr hempty]
      exact .eof rfl
    · have hne : r ≠ .eof := fun heq => hempty (by rw [heq]; rfl)
      obtain ⟨e, he⟩ :=
        eq_error_of_toOption (readUntilLoop_toOption_of_none delim max [] r hfind (.inr hne))
      rw [readUntilLimited, he]
      exact .refused (fun h => hmem (List.mem_of_mem_take h)) hempty

/-- The three ends exclude each other. -/
theorem LimitedRead.iff {delim : UInt8} {max : ℕ} {stream : Bytes}
    {res : Except HttpError (Option Bytes × Reader)} (h : LimitedRead delim max stream res) :
    (delim ∈ stream.take max ↔ ∃ line after r, stream = line ++ delim :: after ∧ delim ∉ line ∧
      res = .ok (some (line ++ [delim]), r) ∧ r.bytes = after ∧ r.AtEof) ∧
    (stream = [] ↔ ∃ r, res = .ok (none, r)) ∧
    (delim ∉ stream.take max ∧ stream ≠ [] ↔ ∃ e, res = .error e) := by
  cases h with
  | line split first fits rest eof =>
    have hne : stream ≠ [] := by simp [split]
    refine ⟨iff_of_true fits ⟨_, _, _, split, first, rfl, rest, eof⟩, iff_of_false hne ?_,
      iff_of_false (fun h => h.1 fits) ?_⟩
    · simp
    · simp
  | eof empty =>
    refine ⟨iff_of_false (by simp [empty]) ?_, iff_of_true empty ⟨_, rfl⟩,
      iff_of_false (fun h => h.2 empty) ?_⟩
    · simp
    · simp
  | refused missing some =>
    refine ⟨iff_of_false missing ?_, iff_of_false some ?_, iff_of_true ⟨missing, some⟩ ⟨_, rfl⟩⟩
    · simp
    · simp

/-- **Lines with a limit.** For every stream in pieces, every delimiter and every limit. -/
theorem limited_lines (delim : UInt8) (max : ℕ) (chunks : List Chunk) :
    (delim ∈ ((chunks.map Subtype.val).flatten).take max ↔
      ∃ line after r, (chunks.map Subtype.val).flatten = line ++ delim :: after ∧ delim ∉ line ∧
        readUntilLimited delim max (.ofChunks chunks) = .ok (some (line ++ [delim]), r) ∧
        r.bytes = after ∧ r.AtEof) ∧
    ((chunks.map Subtype.val).flatten = [] ↔
      ∃ r, readUntilLimited delim max (.ofChunks chunks) = .ok (none, r)) ∧
    (delim ∉ ((chunks.map Subtype.val).flatten).take max ∧ (chunks.map Subtype.val).flatten ≠ [] ↔
      ∃ e, readUntilLimited delim max (.ofChunks chunks) = .error e) ∧
    (readUntilLogged delim max [] (.ofChunks chunks)).2 =
      readUntilLimited delim max (.ofChunks chunks) ∧
    ∀ b ∈ (readUntilLogged delim max [] (.ofChunks chunks)).1, b.length ≤ max := by
  have hread := (limitedRead delim max (Reader.atEof_ofChunks chunks)).iff
  rw [Reader.bytes_ofChunks] at hread
  have hempty : ([] : Bytes).length ≤ max := Nat.zero_le max
  exact ⟨hread.1, hread.2.1, hread.2.2, readUntilLogged_snd delim max [] _,
    length_readUntilLogged hempty _⟩

end MeshlyCore.StaticHttp
